/-
What the options of a binding decide. Main statement: for a tree they decide only whether names that are
declared twice are reported and how deep a scope may be; a limit that no scope of a unit passes changes
nothing in the unit, and any other limit stops the binding at the first scope that passes it.
-/
import JavaNames.Proofs.Binding.Options

namespace JavaNames

namespace BoundUnit

variable {options other : BindOptions} {unit unit' : BoundUnit}

/-! ## Reports -/

/-- A declaration reports nothing, or else that its name is a duplicate where these are reported. -/
theorem diagnostics_withDeclared (unit : BoundUnit) (options : BindOptions) (scope : Option ScopeId)
    (declaring : Link) (symbol : Symbol) :
    (unit.withDeclared options scope declaring symbol).diagnostics = unit.diagnostics ∨
      options.reportDuplicates ∧ ∃ existing,
        (unit.withDeclared options scope declaring symbol).diagnostics =
          unit.diagnostics.push ((unit.withSymbol declaring symbol).duplicate symbol existing) := by
  cases scope with
  | none => exact .inl rfl
  | some target =>
    rw [withDeclared]
    cases hf : ((unit.withSymbol declaring symbol).scope? target).bind
        fun s => s.table.symbol? symbol.name with
    | none =>
      rw [withName_new hf]
      exact .inl rfl
    | some existing =>
      rw [withName_known hf]
      split
      · exact .inr ⟨‹_›, existing, rfl⟩
      · exact .inl rfl

/-- Nothing is reported where duplicates are not to be reported. -/
theorem Moves.quiet (h : unit.Moves options unit') (hq : options.reportDuplicates = false) :
    unit'.diagnostics = unit.diagnostics := by
  induction h with
  | stay => rfl
  | scope => assumption
  | @node next scope id _ _ ih =>
    cases scope with
    | none => exact ih
    | some _ => exact ih
  | @declare _ scope declaring symbol _ _ ih =>
    rcases diagnostics_withDeclared _ options scope declaring symbol with hsame | ⟨hr, -⟩
    · exact hsame.trans ih
    · rw [hq] at hr
      exact absurd hr Bool.false_ne_true

/-! ## Meanings -/

namespace Alike

theorem resolveFrom_eq (h : unit.Alike options other unit') (name : String) (offset steps : Nat)
    (scope : Option ScopeId) :
    unit'.resolveFrom name offset steps scope = unit.resolveFrom name offset steps scope := by
  induction steps generalizing scope with
  | zero => rfl
  | succ steps ih =>
    cases scope with
    | none => rfl
    | some id =>
      have hscope : unit'.scope? id = unit.scope? id := by
        rw [h.rest]
        rfl
      simp only [resolveFrom, hscope, ih]

theorem resolve_eq (h : unit.Alike options other unit') : unit'.resolve = unit.resolve := by
  funext scope name offset
  exact h.resolveFrom_eq name offset _ scope

theorem resolveUse?_eq (h : unit.Alike options other unit') (tree : Tree) :
    unit'.resolveUse? tree = unit.resolveUse? tree := by
  funext node
  have hscope : unit'.scopeOf? node = unit.scopeOf? node := by
    rw [h.rest]
    rfl
  simp only [resolveUse?, h.resolve_eq, hscope]

theorem resolveUses_eq (h : unit.Alike options other unit') (tree : Tree) :
    unit'.resolveUses tree = unit.resolveUses tree := by
  have hroot : unit'.root = unit.root := by rw [h.rest]
  rw [resolveUses, resolveUses, hroot, h.resolveUse?_eq]

end Alike

end BoundUnit

/-! ## Settings -/

/-- A unit that is found is within the limit of its setting. -/
theorem Tree.within_of_bind {tree : Tree} {root : Link} {file : String} {options : BindOptions}
    {bound : BoundUnit} (h : tree.bind root file options = .ok bound) :
    bound.Within options.maxScopeDepth := by
  obtain ⟨id, hmoves⟩ := Tree.moves_of_bind h
  exact fun _ _ => (hmoves.nested (BoundUnit.nested_empty _ _ _)).depth

/-- A tree for which a unit is found has the same scopes, names and meanings under every setting whose
limit no scope of the unit passes; its diagnostics are none where duplicates are not reported, and else
those that every setting gives that reports them. Under every other setting, the first scope of the unit
that passes the limit is what the tree is refused for. -/
theorem Tree.bind_settings {tree : Tree} {root : NodeId} {file : String} {options : BindOptions}
    {bound : BoundUnit} (hb : tree.Branching root) (h : tree.bind root file options = .ok bound)
    (other : BindOptions) :
    (bound.Within other.maxScopeDepth →
      ∃ found, tree.bind root file other = .ok found ∧
        found.symbols = bound.symbols ∧ found.scopes = bound.scopes ∧
        found.nodeScopes = bound.nodeScopes ∧ found.constructScopes = bound.constructScopes ∧
        found.declarationSymbols = bound.declarationSymbols ∧ found.resolve = bound.resolve ∧
        found.resolveUses tree = bound.resolveUses tree ∧
        (other.reportDuplicates = false → found.diagnostics = #[]) ∧
        (other.reportDuplicates = true → ∀ third last, third.reportDuplicates = true →
          tree.bind root file third = .ok last → last.diagnostics = found.diagnostics)) ∧
      (¬bound.Within other.maxScopeDepth →
        ∃ node, bound.Passes other.maxScopeDepth node ∧
          tree.bind root file other = .error (.tooDeep node other.maxScopeDepth)) := by
  constructor
  · intro hwithin
    rcases hb.bind_follows h other with ⟨-, found, hfound, halike⟩ | ⟨node, hpasses, -⟩
    · refine ⟨found, hfound, halike.symbols_eq, halike.scopes_eq, (congrArg (·.nodeScopes) halike.rest :),
        (congrArg (·.constructScopes) halike.rest :), (congrArg (·.declarationSymbols) halike.rest :),
        halike.resolve_eq, halike.resolveUses_eq tree, ?_, ?_⟩
      · intro hquiet
        obtain ⟨id, hmoves⟩ := Tree.moves_of_bind hfound
        exact hmoves.quiet hquiet
      · intro hloud third last hthird hlast
        rcases hb.bind_follows hfound third with ⟨-, found', hfound', halike'⟩ | ⟨node, -, herror⟩
        · obtain rfl := Except.ok.inj (hlast.symm.trans hfound')
          exact halike'.diagnostics (hloud.trans hthird.symm)
        · rw [hlast] at herror
          cases herror
    · exact absurd hwithin hpasses.not_within
  · intro hdeep
    rcases hb.bind_follows h other with ⟨hwithin, -⟩ | hstops
    · exact absurd hwithin hdeep
    · exact hstops

/-- A field that is declared twice, and a block in a method. -/
theorem Tree.bind_settings_twice :
    ∃ (unit : Grammar.SyntaxUnit) (found : BoundUnit),
      Grammar.parse "A.java" "class A \x7b int x; int x; void f() \x7b \x7b int y; \x7d \x7d \x7d" =
        .ok unit ∧
      unit.tree.Branching unit.root ∧
      unit.tree.bind unit.root "A.java" { reportDuplicates := false, maxScopeDepth := 4000 } =
        .ok found ∧ found.diagnostics = #[] := by
  obtain ⟨unit, h⟩ := Grammar.exists_ok (show (Grammar.parse "A.java"
    "class A \x7b int x; int x; void f() \x7b \x7b int y; \x7d \x7d \x7d").isOk = true by
      decide +kernel)
  have hbranching := (Grammar.sound_of_parse h).branching
  obtain ⟨bound, hb⟩ := (Grammar.bind_total h "A.java" { maxScopeDepth := 4000 }).2 (by decide)
  have hwithin : bound.Within 4000 := Tree.within_of_bind hb
  obtain ⟨found, hf, -, -, -, -, -, -, -, hquiet, -⟩ :=
    (Tree.bind_settings hbranching hb { reportDuplicates := false, maxScopeDepth := 4000 }).1 hwithin
  exact ⟨unit, found, h, hbranching, hf, hquiet rfl⟩

end JavaNames
