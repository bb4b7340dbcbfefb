/-
Names mean what the environment says. Main statement: for a file, looking a name up in the scopes that
were found gives the meaning that passing the tree gives, at every use of a name.
-/
import JavaNames.Proofs.Binding.Listing
import JavaNames.Proofs.Meaning.Bodies
import JavaNames.Proofs.Meaning.Growing

namespace JavaNames

open Binder (Context)
open BoundUnit (maxSearch)

/-- Passing a construct with nothing of its own passes its parts. -/
theorem Tree.pass_plain {tree : Tree} {id : NodeId} {node : Node} (hn : tree.node? id = some node)
    {groups : List Group} (hg : node.payload.groups node.kind = some groups)
    (hp : Plan.isPlain node.kind) (hk : node.kind ≠ .nameExpression) (depth : Nat)
    (setting : Tree.Setting) : tree.pass (depth + 1) setting id =
      .each (tree.pass depth setting) (node.payload.links node.kind) := by
  obtain ⟨kind, start, stop, parent, payload⟩ := node
  rw [pass, hn]
  simp only at hg hp hk ⊢
  unfold Payload.groups at hg
  split at hg
  all_goals first | rfl | exact absurd rfl hk | cases hp | cases hg

namespace Grammar.SyntaxUnit

variable {unit : SyntaxUnit} {options : BindOptions} {bound : BoundUnit} {id : NodeId} {node : Node}
  {context : Context} {setting : Tree.Setting} {env : Environment} {depth : Nat}

/-- A node that leaves the environment as it is. -/
theorem Sound.pass_quiet (hs : unit.Sound) (hmax : options.maxScopeDepth < maxSearch)
    (hr : unit.tree.Reaches unit.root id)
    (ih : ∀ child ∈ unit.tree.children id, Agrees options unit.tree bound child)
    (hn : unit.tree.node? id = some node) (hquiet : node.kind.isLoud = false) (hd : id < depth + 1)
    (h : Described options unit.tree bound id context) (hsuits : unit.tree.Suits setting context id)
    (hsees : ∀ offset, unit.tree.Covers id offset → bound.Sees offset context.scope env) :
    unit.tree.pass (depth + 1) setting id env = (bound.answers unit.tree id, env) := by
  by_cases hname : node.kind = .nameExpression
  · exact pass_use hs.wellFormed hn hname h hsees
  have hclause : node.kind ≠ .caseClause := fun hk => by
    rw [hk] at hquiet
    cases hquiet
  obtain ⟨groups, hg, ht⟩ := hs.wellFormed.takes hn
  by_cases hp : Plan.isPlain node.kind
  · have hplan := Plan.of_plain unit.tree id context hg hp
    refine hs.pass_closed hr ih hn hd h hsees hname hclause (fun hk => ?_) (by rw [hplan]; rfl)
      (by rw [hplan]; rfl) (by rw [hplan]; exact hsuits.owner)
      (Tree.pass_plain hn hg hp hname depth setting)
    rw [hk] at hp
    cases hp
  obtain ⟨kind, start, stop, parent, payload⟩ := node
  simp only at hg hp hquiet
  unfold Payload.groups at hg
  split at hg
  all_goals first | exact absurd rfl hp | cases hg; done | cases hquiet; done | skip
  -- the declarations of types
  case h_2 | h_3 | h_4 | h_5 | h_6 => exact hs.pass_type hmax hr ih hn hd h hsees rfl
  -- constants and created objects, with a body or without
  case h_7 body =>
    cases body with
    | none =>
      exact hs.pass_closed hr ih hn hd h hsees hname hclause (by simp) rfl rfl hsuits.owner
        (by rw [Tree.pass, hn])
    | some members =>
      cases hg
      exact hs.pass_body hmax hr ih hn hd h hsuits.owner hsees hname (by simp) rfl rfl rfl rfl
        (by rw [Tree.pass, hn]; rfl)
  case h_51 body =>
    cases body with
    | none =>
      exact hs.pass_closed hr ih hn hd h hsees hname hclause (by simp) rfl rfl hsuits.owner
        (by rw [Tree.pass, hn])
    | some members =>
      cases hg
      exact hs.pass_body hmax hr ih hn hd h hsuits.owner hsees hname (by simp) rfl rfl rfl rfl
        (by rw [Tree.pass, hn]; rfl)
  case h_8 =>
    exact hs.pass_closed hr ih hn hd h hsees hname hclause (by simp) rfl rfl hsuits.owner
      (by rw [Tree.pass, hn]; rfl)
  case h_11 | h_12 | h_13 => exact hs.pass_method hmax hr ih hn hd h hsuits hsees
  case h_14 =>
    exact hs.pass_closed hr ih hn hd h hsees hname hclause (by simp) rfl rfl
      (show (Tree.Setting.inside id).owner = _ from rfl) (by rw [Tree.pass, hn])
  -- blocks, heads of loops and bodies of "switch"
  case h_17 =>
    cases hg
    exact hs.pass_region hmax hr ih hn hd h hsuits.owner hsees hname (by simp) rfl
      (by simp [Node.children, Payload.children, Payload.links, Group.ids]) rfl rfl rfl
      (by rw [Tree.pass, hn]; rfl)
  case h_26 =>
    cases hg
    exact hs.pass_region hmax hr ih hn hd h hsuits.owner hsees hname (by simp) rfl
      (by simp [Node.children, Payload.children, Payload.links, Group.ids]) rfl rfl rfl
      (by rw [Tree.pass, hn]; rfl)
  case h_34 =>
    cases hg
    exact hs.pass_region hmax hr ih hn hd h hsuits.owner hsees hname (by simp) rfl
      (by simp [Node.children, Payload.children, Payload.links, Group.ids]) rfl rfl rfl
      (by rw [Tree.pass, hn]; rfl)
  case h_27 => exact hs.pass_forEach hmax hr ih hn hd h hsuits.owner hsees
  case h_28 resources _ _ _ =>
    cases resources with
    | none =>
      exact hs.pass_closed hr ih hn hd h hsees hname hclause (by simp) rfl rfl hsuits.owner
        (by rw [Tree.pass, hn])
    | some list => exact hs.pass_try hmax hr ih hn hd h hsuits.owner hsees
  case h_31 => exact hs.pass_catch hmax hr ih hn hd h hsuits.owner hsees
  case h_32 | h_33 =>
    exact hs.pass_closed hr ih hn hd h hsees hname hclause (by simp) rfl rfl hsuits.owner
      (by rw [Tree.pass, hn])
  case h_61 => exact hs.pass_lambda hmax hr ih hn hd h hsees

/-- A node in a frame that grows: it makes the frame grow by what it gives to the scope. -/
theorem Sound.pass_growing (hs : unit.Sound) (hmax : options.maxScopeDepth < maxSearch)
    (hr : unit.tree.Reaches unit.root id)
    (ih : ∀ child ∈ unit.tree.children id, Agrees options unit.tree bound child)
    (hn : unit.tree.node? id = some node) (hfield : node.kind ≠ .fieldDeclaration)
    (hlist : node.kind ≠ .resourceList) (hd : id < depth + 1)
    (h : Described options unit.tree bound id context) (hsuits : unit.tree.Suits setting context id)
    {number : ScopeId} {scope : Scope} {total before behind : List Symbol} {outer : Environment}
    (hscope : context.scope = some number)
    (hgrowing : Growing bound unit.tree number scope total outer id)
    (htotal : total = before ++ unit.tree.symbols (unit.tree.given context id) ++ behind)
    (hbefore : ∀ symbol ∈ before, ∀ offset, unit.tree.Covers id offset → symbol.visibleFrom ≤ offset)
    (hbehind : ∀ symbol ∈ behind, ∀ offset, unit.tree.Covers id offset → offset < symbol.visibleFrom) :
    unit.tree.pass (depth + 1) setting id (.ofSymbols before :: outer) =
      (bound.answers unit.tree id,
        .ofSymbols (before ++ unit.tree.symbols (unit.tree.given context id)) :: outer) := by
  by_cases hlocal : node.kind = .localVariableStatement
  · obtain ⟨groups, hg, -⟩ := hs.wellFormed.takes hn
    obtain ⟨kind, start, stop, parent, payload⟩ := node
    obtain rfl : kind = .localVariableStatement := hlocal
    cases payload <;> cases hg
    exact hs.pass_locals hr ih hn hd h hsuits.owner hscope hgrowing htotal hbefore hbehind
  by_cases hclause : node.kind = .caseClause
  · obtain ⟨groups, hg, -⟩ := hs.wellFormed.takes hn
    obtain ⟨kind, start, stop, parent, payload⟩ := node
    obtain rfl : kind = .caseClause := hclause
    cases payload <;> cases hg
    exact hs.pass_clause hr ih hn hd h hsuits.owner hscope hgrowing htotal hbefore hbehind
  have hquiet : node.kind.isLoud = false ∧ node.kind.gives = false := by
    obtain ⟨kind, start, stop, parent, payload⟩ := node
    cases kind <;> first
      | exact ⟨rfl, rfl⟩
      | exact absurd rfl hfield
      | exact absurd rfl hlist
      | exact absurd rfl hlocal
      | exact absurd rfl hclause
  have hnil : unit.tree.symbols (unit.tree.given context id) = [] := by
    rw [Tree.given_quiet hs.wellFormed hn hquiet.2]
    rfl
  rw [hnil, List.append_nil] at htotal ⊢
  refine hs.pass_quiet hmax hr ih hn hquiet.1 hd h hsuits fun offset ho => ?_
  rw [hscope]
  exact hgrowing.sees htotal ho (fun symbol hsymbol => hbefore symbol hsymbol offset ho)
    fun symbol hsymbol => hbehind symbol hsymbol offset ho

/-- Passing a node of a file answers what the unit answers. -/
theorem Sound.agrees (hs : unit.Sound) (hmax : options.maxScopeDepth < maxSearch)
    (hr : unit.tree.Reaches unit.root id) : Agrees options unit.tree bound id := by
  induction id using Nat.strongRecOn with
  | ind id ih =>
    have ih (child : NodeId) (hc : child ∈ unit.tree.children id) :
        Agrees options unit.tree bound child :=
      ih child (hs.wellFormed.lt_of_mem_children hc) (hr.child hc)
    have exists_depth {depth : Nat} (hd : id < depth) : ∃ less, depth = less + 1 :=
      Nat.exists_eq_succ_of_ne_zero (Nat.ne_of_gt (Nat.lt_of_le_of_lt (Nat.zero_le _) hd))
    refine ⟨fun hn hquiet hd h hsuits hsees => ?_, fun hn hfield hlist hd h hsuits hscope hgrowing
      htotal hbefore hbehind => ?_, fun hn hd h hsuits hscope hgrowing => ?_⟩
    · obtain ⟨_, rfl⟩ := exists_depth hd
      exact hs.pass_quiet hmax hr ih hn hquiet hd h hsuits hsees
    · obtain ⟨_, rfl⟩ := exists_depth hd
      exact hs.pass_growing hmax hr ih hn hfield hlist hd h hsuits hscope hgrowing htotal hbefore
        hbehind
    · obtain ⟨_, rfl⟩ := exists_depth hd
      exact hs.pass_resources hr ih hn hd h hsuits.owner hscope hgrowing

end Grammar.SyntaxUnit

/-! ## Meanings of a file -/

namespace Grammar

variable {file text name : String} {unit : SyntaxUnit} {options : BindOptions} {bound : BoundUnit}

/-- The names of a file mean what the environment says. -/
theorem meanings_eq (h : parse file text = .ok unit)
    (hb : unit.tree.bind unit.root name options = .ok bound)
    (hmax : options.maxScopeDepth < maxSearch) :
    unit.tree.meanings unit.root = bound.answers unit.tree unit.root := by
  have hs := sound_of_parse h
  have hwalked := (binds_of_parse h hb).walked hs.wellFormed
    (unit.tree.awaits_root name unit.root)
  obtain ⟨node, hn, hk⟩ := Option.map_eq_some_iff.1 hs.root
  have hagrees : Agrees options unit.tree bound unit.root := hs.agrees hmax .root
  have hpass := hagrees.quiet hn (by rw [hk]; rfl) (Nat.lt_succ_of_lt hs.root_lt)
    (hwalked.described (.head _))
    (show unit.tree.Suits ⟨none, []⟩ .top unit.root from ⟨rfl, fun hn' hk' => by
      obtain rfl := Option.some.inj (hn.symm.trans hn')
      rw [hk] at hk'
      cases hk'⟩)
    fun _ _ => .top
  rw [Tree.meanings, hpass]

/-- A use of a name is found, with a symbol of the unit or with none. -/
theorem exists_use (hs : unit.Sound) (hb : unit.tree.bind unit.root name options = .ok bound)
    {id : NodeId} (hk : unit.tree.kind? id = some .nameExpression) :
    ∃ symbol, bound.resolveUse? unit.tree id = some ⟨id, symbol⟩ ∧
      Option.Rel bound.Means symbol (bound.meaning? symbol) := by
  obtain ⟨⟨kind, start, stop, parent, payload⟩, hn, rfl⟩ := Option.map_eq_some_iff.1 hk
  obtain ⟨groups, hg, -⟩ := hs.wellFormed.takes hn
  cases payload <;> cases hg
  rename_i text
  refine ⟨bound.resolve (bound.scopeOf? id) text start, by rw [BoundUnit.resolveUse?, hn], ?_⟩
  cases hr : bound.resolve (bound.scopeOf? id) text start with
  | none => exact .none
  | some number =>
    obtain ⟨_, hmoves⟩ := Tree.moves_of_bind hb
    obtain ⟨symbol, hsymbol⟩ := hmoves.exists_symbol hr
    rw [BoundUnit.meaning?, Option.bind_some, hsymbol]
    exact .some ⟨symbol, hsymbol, rfl⟩

/-- Where all uses are found, each gives one answer. -/
theorem answers_eq_map {tree : Tree} {ids : List NodeId}
    (h : ∀ id ∈ ids, ∃ symbol, bound.resolveUse? tree id = some ⟨id, symbol⟩) :
    (ids.filterMap (bound.resolveUse? tree)).map (fun use => (use.node, bound.meaning? use.symbol)) =
      ids.map fun id => (id, bound.meaning? ((bound.resolveUse? tree id).bind (·.symbol))) := by
  induction ids with
  | nil => rfl
  | cons id ids ih =>
    obtain ⟨symbol, hsymbol⟩ := h id (.head _)
    rw [List.filterMap_cons, hsymbol, List.map_cons, List.map_cons, hsymbol,
      ih fun other ho => h other (.tail _ ho)]
    rfl

/-- In a file, each use of a name has one answer when an environment is handed down the tree, and looking
the name up in the scopes finds a symbol of this meaning, or none where there is none. -/
theorem resolve_meanings (h : parse file text = .ok unit)
    (hb : unit.tree.bind unit.root name options = .ok bound)
    (hmax : options.maxScopeDepth < maxSearch) :
    (unit.tree.meanings unit.root).map Prod.fst = unit.tree.nameUses unit.root ∧
      ∀ id, unit.tree.Reaches unit.root id → unit.tree.kind? id = some .nameExpression →
        ∃ symbol answer, bound.resolveUse? unit.tree id = some ⟨id, symbol⟩ ∧
          Option.Rel bound.Means symbol answer ∧
          ∀ other, (id, other) ∈ unit.tree.meanings unit.root ↔ other = answer := by
  have hs := sound_of_parse h
  have mem_uses {id : NodeId} : id ∈ unit.tree.nameUses unit.root ↔
      unit.tree.Reaches unit.root id ∧ unit.tree.kind? id = some .nameExpression := by
    rw [Tree.nameUses, List.mem_filter, Tree.mem_descendants hs.wellFormed hs.root_lt,
      decide_eq_true_iff]
  have hfound : ∀ id ∈ unit.tree.nameUses unit.root,
      ∃ symbol, bound.resolveUse? unit.tree id = some ⟨id, symbol⟩ := by
    intro id hm
    obtain ⟨symbol, hsymbol, -⟩ := exists_use hs hb (mem_uses.1 hm).2
    exact ⟨symbol, hsymbol⟩
  rw [meanings_eq h hb hmax, BoundUnit.answers, answers_eq_map hfound]
  refine ⟨?_, fun id hr hk => ?_⟩
  · rw [List.map_map]
    exact List.map_id _
  · obtain ⟨symbol, hsymbol, hmeans⟩ := exists_use hs hb hk
    refine ⟨symbol, _, hsymbol, hmeans, fun other => ?_⟩
    rw [List.mem_map]
    refine ⟨?_, fun he => ⟨id, mem_uses.2 ⟨hr, hk⟩, ?_⟩⟩
    · rintro ⟨_, -, he⟩
      obtain ⟨rfl, rfl⟩ := Prod.mk.inj he
      rw [hsymbol]
      rfl
    · rw [hsymbol, he]
      rfl

/-- A variable that hides a field in its own initializer, and a resource that its block can see. -/
theorem resolve_meanings_hidden :
    ∃ unit bound, parse "A.java"
        "class A \x7b int x; void f() \x7b try (R r = g(x)) \x7b int x = x + r; \x7d \x7d \x7d" = .ok unit ∧
      unit.tree.bind unit.root "A.java" {} = .ok bound ∧
      (unit.tree.meanings unit.root).map Prod.fst = unit.tree.nameUses unit.root := by
  obtain ⟨unit, bound, h, hb⟩ := exists_bound (show ((parse "A.java"
      "class A \x7b int x; void f() \x7b try (R r = g(x)) \x7b int x = x + r; \x7d \x7d \x7d").toOption.any
    fun unit => (unit.tree.bind unit.root "A.java" {}).isOk) = true by decide +kernel)
  exact ⟨unit, bound, h, hb, (resolve_meanings h hb (by decide)).1⟩

end Grammar

end JavaNames
