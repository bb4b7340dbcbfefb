/-
Finding the scopes and symbols of a file always ends well. Main statement: a file that has been read is
never taken for a malformed tree, and it has scopes and symbols unless its scopes are nested more deeply
than they may be.
-/
import JavaNames.Proofs.Binding.Place
import JavaNames.Proofs.Reading.Nesting

namespace JavaNames

open Binder (Context Pending)

/-! ## The ends of walks -/

section

variable {options : BindOptions} {tree : Tree} {unit : BoundUnit} {pending : Pending} {most more : Nat}
  {result : Except BindError (Unit × BoundUnit)}

theorem Ends.mono (h : Ends options tree pending unit most result) (hle : most ≤ more) :
    Ends options tree pending unit more result := by
  cases h with
  | ok hb => exact .ok hb
  | tooDeep node hlt => exact .tooDeep node (Nat.lt_of_lt_of_le hlt hle)

theorem Ends.step {id : NodeId} {context : Context} {node : Node} (hn : tree.node? id = some node)
    (hd : ¬(Plan.of tree id node context).TooDeep options context (unit.withNode id context.scope))
    (h : Ends options tree ((Plan.of tree id node context).pending context
        ((Plan.of tree id node context).inside context (unit.withNode id context.scope)))
      ((Plan.of tree id node context).filled options tree context (unit.withNode id context.scope))
      most result) : Ends options tree [(id, context)] unit most result := by
  cases h with
  | ok hb => exact .ok (.step hn hd (by rwa [List.append_nil]))
  | tooDeep node hlt => exact .tooDeep node hlt

/-- Where the walks over single nodes end well from all units that may be met, so does the walk over
all of them, one after the other. -/
theorem Ends.forM {visit : NodeId × Context → Binder Unit}
    (h : ∀ entry ∈ pending, ∀ next, unit.Extends next →
      Ends options tree [entry] next most (visit entry next)) :
    Ends options tree pending unit most (pending.forM visit unit) := by
  induction pending generalizing unit with
  | nil => exact .ok (.done unit)
  | cons entry rest ih =>
    have hfirst := h entry (.head _) unit (.refl unit)
    generalize hr : visit entry unit = result at hfirst
    cases hfirst with
    | tooDeep node hlt =>
      have hall : (entry :: rest).forM visit unit = _ := Binder.bind_error hr
      rw [hall]
      exact .tooDeep node hlt
    | @ok next hb =>
      have hall : (entry :: rest).forM visit unit = _ := Binder.bind_ok hr
      rw [hall]
      have hrest := ih fun other ho later hl => h other (.tail _ ho) later (hb.extends.trans hl)
      generalize rest.forM visit next = result at hrest
      cases hrest with
      | tooDeep node hlt => exact .tooDeep node hlt
      | ok hb' => exact .ok (hb.append hb')

end

/-! ## Walks over files -/

namespace Grammar.SyntaxUnit

variable {unit : SyntaxUnit}

/-- The children of a construct have as many scopes around them as the construct leaves to them. -/
theorem depthInside_child (hs : unit.Sound) {bound : NodeId → Nat} (hb : unit.tree.Bounds .scopes bound)
    (options : BindOptions) {id : NodeId} {node : Node} (hn : unit.tree.node? id = some node)
    {context : Context} {found : BoundUnit} (hk : found.Knows context.scope) {child : NodeId}
    {inner : Context} (hc : (child, inner) ∈ (Plan.of unit.tree id node context).pending context
      ((Plan.of unit.tree id node context).inside context found)) :
    let next := (Plan.of unit.tree id node context).filled options unit.tree context found
    next.Knows inner.scope ∧
      next.depthInside inner.scope + bound child ≤ found.depthInside context.scope + bound id := by
  obtain ⟨groups, hg, ht⟩ := hs.wellFormed.takes hn
  obtain ⟨⟨child', inside⟩, hm, he⟩ := List.mem_map.1 hc
  cases he
  obtain ⟨group, hgroup, hl, hi⟩ := Plan.of_children unit.tree id context hg hm
  have hle := hb.step hn hg group hgroup child hl
  have hextends := (Plan.of unit.tree id node context).extends_filled options unit.tree context found
  cases inside with
  | false =>
    refine ⟨hextends.knows hk, ?_⟩
    rw [if_neg Bool.false_ne_true, hextends.depthInside_eq hk]
    exact Nat.add_le_add_left (Nat.le_trans (Nat.le_add_right _ _) hle) _
  | true =>
    refine ⟨Plan.knows_inside options unit.tree _ hk, ?_⟩
    change BoundUnit.depthInside _ (Plan.inside _ _ _) + _ ≤ _
    rw [Plan.depthInside_inside options unit.tree _ hk]
    by_cases ho : (Plan.of unit.tree id node context).opened.isSome
    · rw [show Gauge.scopes.cost node.kind node.payload group = group.opens from rfl, Group.opens,
        ← hi ho] at hle
      rw [if_pos ho, Nat.add_assoc, Nat.add_comm 1]
      exact Nat.add_le_add_left hle _
    · rw [if_neg ho]
      exact Nat.add_le_add_left (Nat.le_trans (Nat.le_add_right _ _) hle) _

/-- A walk over a file ends with a unit or at a scope that is nested too deeply. -/
theorem visit_ends (hs : unit.Sound) {bound : NodeId → Nat} (hb : unit.tree.Bounds .scopes bound)
    (options : BindOptions) {depth : Nat} {id : NodeId} {context : Context} {found : BoundUnit}
    (hd : id < depth) (hp : unit.Stands id context) (hk : found.Knows context.scope) :
    Ends options unit.tree [(id, context)] found (found.depthInside context.scope + bound id)
      (Binder.visit options unit.tree depth id context found) := by
  induction depth generalizing id context found with
  | zero => exact absurd hd (Nat.not_lt_zero id)
  | succ depth ih =>
    obtain ⟨node, hn⟩ := hp.exists_node hs
    have hrecord := found.extends_withNode id context.scope
    rw [Plan.visit_succ hs.wellFormed hn (hp.fits hs hn), ← hrecord.depthInside_eq hk]
    replace hk := hrecord.knows hk
    by_cases hdeep : (Plan.of unit.tree id node context).TooDeep options context
        (found.withNode id context.scope)
    · obtain ⟨hs, hdepth⟩ := hdeep
      obtain ⟨⟨kind, deep⟩, ho⟩ := Option.isSome_iff_exists.1 hs
      rw [Binder.bind_error (Plan.run_error ho hdepth)]
      exact .tooDeep deep (Nat.lt_of_lt_of_le hdepth (Nat.le_add_right _ _))
    · rw [Binder.bind_ok (Plan.run_ok hdeep)]
      refine Ends.step hn hdeep (Ends.forM fun entry hm next hnext => ?_)
      obtain ⟨child, inner⟩ := entry
      obtain ⟨hknows, hle⟩ := depthInside_child hs hb options hn hk hm
      obtain ⟨groups, hg, -⟩ := hs.wellFormed.takes hn
      have hlt := hs.wellFormed.lt_of_mem_children (Plan.mem_children hn hg hm)
      refine (ih (Nat.lt_of_lt_of_le hlt (Nat.le_of_lt_succ hd)) (hp.child hs hn hm)
        (hnext.knows hknows)).mono ?_
      rw [hnext.depthInside_eq hknows]
      exact hle

theorem Sound.bind_eq (hs : unit.Sound) (file : String) (options : BindOptions) :
    unit.tree.bind unit.root file options =
      (Binder.visit options unit.tree ((options.maxScopeDepth + 2) * (unit.tree.size + 1)) unit.root
        .top (.empty file unit.root)).map (·.2) := by
  have hkind : unit.tree.kindAt? (some unit.root) = some .compilationUnit := hs.root
  simp only [Tree.bind, hkind]
  rfl

/-- The steps that finding the scopes and symbols of a file allows are enough. -/
theorem bind_ends (hs : unit.Sound) {bound : NodeId → Nat} (hb : unit.tree.Bounds .scopes bound)
    (file : String) (options : BindOptions) :
    Ends options unit.tree [(unit.root, .top)] (.empty file unit.root) (bound unit.root)
      (Binder.visit options unit.tree ((options.maxScopeDepth + 2) * (unit.tree.size + 1)) unit.root
        .top (.empty file unit.root)) := by
  have hd : unit.root < (options.maxScopeDepth + 2) * (unit.tree.size + 1) := by
    refine Nat.lt_of_lt_of_le hs.root_lt ?_
    exact Nat.le_trans (Nat.le_succ _) (Nat.le_mul_of_pos_left _ (Nat.succ_pos _))
  have hk : (BoundUnit.empty file unit.root).Knows Context.top.scope := nofun
  have hends := visit_ends hs hb options hd (.top hs) hk
  rwa [show (BoundUnit.empty file unit.root).depthInside Context.top.scope = 0 from rfl,
    Nat.zero_add] at hends

end Grammar.SyntaxUnit

namespace Grammar

variable {file text : String} {unit : SyntaxUnit}

/-- A unit that is found for a file comes from a walk that is not stopped. -/
theorem binds_of_parse (h : parse file text = .ok unit) {name : String} {options : BindOptions}
    {found : BoundUnit} (hb : unit.tree.bind unit.root name options = .ok found) :
    Binds options unit.tree [(unit.root, .top)] (.empty name unit.root) found := by
  have hs := sound_of_parse h
  obtain ⟨most, hmost, -⟩ := exists_bounds .scopes h
  have hends := SyntaxUnit.bind_ends hs hmost name options
  rw [hs.bind_eq] at hb
  generalize Binder.visit options unit.tree _ unit.root .top (.empty name unit.root) = result at hends hb
  cases hends with
  | tooDeep => cases hb
  | ok hbinds =>
    cases hb
    exact hbinds

/-- A file that is read and whose scopes and symbols are found. -/
theorem exists_bound {name : String} {options : BindOptions}
    (h : ((parse file text).toOption.any fun unit =>
      (unit.tree.bind unit.root name options).isOk) = true) :
    ∃ unit bound, parse file text = .ok unit ∧ unit.tree.bind unit.root name options = .ok bound := by
  obtain ⟨unit, hp, hok⟩ := exists_unit h
  obtain ⟨bound, hb⟩ := exists_ok hok
  exact ⟨unit, bound, hp, hb⟩

/-- A file whose scopes are found and pass a test with it. -/
theorem exists_bound_of {name : String} {options : BindOptions}
    {test : SyntaxUnit → BoundUnit → Bool}
    (h : ((parse file text).toOption.any fun unit =>
      (unit.tree.bind unit.root name options).toOption.any (test unit)) = true) :
    ∃ unit bound, parse file text = .ok unit ∧ unit.tree.bind unit.root name options = .ok bound ∧
      test unit bound = true := by
  obtain ⟨unit, hp, htest⟩ := exists_unit h
  cases hb : unit.tree.bind unit.root name options with
  | error => rw [hb] at htest; cases htest
  | ok bound => exact ⟨unit, bound, hp, hb, by rwa [hb] at htest⟩

/-- Finding the scopes and symbols of a file never fails because of the form of its tree. It fails at
most where scopes are nested more deeply than they may be, and not at all where as many may be nested
as four for each construct that a reader accepts inside others. -/
theorem bind_total (h : parse file text = .ok unit) (name : String) (options : BindOptions) :
    (∀ node reason, unit.tree.bind unit.root name options ≠ .error (.malformed node reason)) ∧
      (4 * maxNesting ≤ options.maxScopeDepth →
        ∃ bound, unit.tree.bind unit.root name options = .ok bound) := by
  have hs := sound_of_parse h
  obtain ⟨bound, hb, hroot⟩ := exists_bounds .scopes h
  have hends := SyntaxUnit.bind_ends hs hb name options
  rw [hs.bind_eq]
  generalize Binder.visit options unit.tree _ unit.root .top (.empty name unit.root) = result at hends
  cases hends with
  | ok hbinds => exact ⟨nofun, fun _ => ⟨_, rfl⟩⟩
  | tooDeep node hlt =>
    exact ⟨nofun, fun hle => absurd hlt (Nat.not_lt.2 (Nat.le_trans hroot hle))⟩

/-- A source in which brackets, a catch clause and the body of a "switch" are missing. -/
theorem bind_total_broken :
    ∃ unit bound,
      parse "R.java" "record R(int x \x7b R \x7b \x7d void f() \x7b try (a \x7b switch (x \x7d \x7d" =
        .ok unit ∧
      unit.tree.bind unit.root "R.java" { maxScopeDepth := 4294967295 } = .ok bound := by
  obtain ⟨unit, h⟩ := exists_ok (show (parse "R.java"
    "record R(int x \x7b R \x7b \x7d void f() \x7b try (a \x7b switch (x \x7d \x7d").isOk = true by
      decide +kernel)
  obtain ⟨bound, hb⟩ := (bind_total h "R.java" { maxScopeDepth := 4294967295 }).2 (by decide)
  exact ⟨unit, bound, h, hb⟩

end Grammar

end JavaNames
