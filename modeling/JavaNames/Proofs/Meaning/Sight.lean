/-
Scopes and environments. From an offset in a scope, names mean what an environment says when each frame
holds what the offset can see in the scope that it stands for: all names of a scope in which order does
not count, and of the others the names that come before the offset.
-/
import JavaNames.Binding.Resolution
import JavaNames.Proofs.Binding.Described
import JavaNames.Proofs.Meaning.Environment

namespace JavaNames

/-! ## Symbols and what they mean -/

/-- What a symbol means. -/
def Symbol.meaning (symbol : Symbol) : Meaning := ⟨symbol.declaration, symbol.kind, symbol.owner⟩

/-- The frame of some symbols. -/
def Frame.ofSymbols (symbols : List Symbol) : Frame :=
  symbols.map fun symbol => (symbol.name, symbol.meaning)

namespace Frame

theorem ofSymbols_append (symbols more : List Symbol) :
    ofSymbols (symbols ++ more) = ofSymbols symbols ++ ofSymbols more := List.map_append

theorem meaning?_ofSymbols (symbols : List Symbol) (name : String) :
    meaning? (ofSymbols symbols) name =
      (symbols.find? fun symbol => symbol.name = name).map Symbol.meaning := by
  rw [meaning?, ofSymbols, List.find?_map, Option.map_map]
  rfl

end Frame

namespace BoundUnit

/-- A number of a symbol that means something. -/
def Means (unit : BoundUnit) (id : SymbolId) (meaning : Meaning) : Prop :=
  ∃ symbol, unit.symbol? id = some symbol ∧ symbol.meaning = meaning

/-! ## Single scopes -/

/-- An offset can see in a scope what a frame holds. -/
def Shows (unit : BoundUnit) (offset : Nat) (scope : Scope) (frame : Frame) : Prop :=
  ∀ name, Option.Rel unit.Means (scope.lookup name offset) (Frame.meaning? frame name)

variable {unit : BoundUnit} {scope : Scope} {symbols before behind : List Symbol} {offset : Nat}

/-- Where order does not count, all names can be seen. -/
theorem shows_all (h : scope.table.Lists unit symbols)
    (hv : scope.kind.visibility = .orderIndependent) :
    unit.Shows offset scope (.ofSymbols symbols) := by
  intro name
  rw [Scope.lookup, hv, Frame.meaning?_ofSymbols]
  unfold Visibility.lookup
  rcases rel_cases (h name) with ⟨hf, hf'⟩ | ⟨entry, symbol, hf, hf', he⟩
  · rw [hf, hf']
    exact .none
  · rw [hf, hf']
    exact .some ⟨symbol, he.symbol, rfl⟩

/-- Where order counts, only the names in front of the offset can be seen. A name behind it hides
nothing, for if there were an earlier one of the same name, that one would be found. -/
theorem shows_before (h : scope.table.Lists unit (before ++ behind))
    (hv : scope.kind.visibility = .orderSensitive)
    (hbefore : ∀ symbol ∈ before, symbol.visibleFrom ≤ offset)
    (hbehind : ∀ symbol ∈ behind, offset < symbol.visibleFrom) :
    unit.Shows offset scope (.ofSymbols before) := by
  intro name
  have hfound := h name
  rw [List.find?_append] at hfound
  rw [Scope.lookup, hv, Frame.meaning?_ofSymbols]
  unfold Visibility.lookup
  cases hb : before.find? fun symbol => symbol.name = name with
  | some symbol =>
    rw [hb, Option.some_or] at hfound
    rcases rel_cases hfound with ⟨-, hf'⟩ | ⟨entry, found, hf, hf', he⟩
    · cases hf'
    · cases hf'
      have hseen : entry.visibleFrom ≤ offset :=
        he.visibleFrom ▸ hbefore symbol (List.mem_of_find?_eq_some hb)
      simp only [hf, hseen, if_true]
      exact .some ⟨symbol, he.symbol, rfl⟩
  | none =>
    rw [hb, Option.none_or] at hfound
    rcases rel_cases hfound with ⟨hf, -⟩ | ⟨entry, found, hf, hf', he⟩
    · rw [hf]
      exact .none
    · have hunseen : ¬entry.visibleFrom ≤ offset :=
        Nat.not_le.2 (he.visibleFrom ▸ hbehind found (List.mem_of_find?_eq_some hf'))
      simp only [hf, hunseen, if_false]
      exact .none

/-! ## Scopes around one another -/

/-- From an offset in a scope, names mean what an environment says. -/
inductive Sees (unit : BoundUnit) (offset : Nat) : Option ScopeId → Environment → Prop
  | top : Sees unit offset none []
  | inside {id : ScopeId} {scope : Scope} {frame : Frame} {outer : Environment} :
    unit.scope? id = some scope → scope.depth = unit.depthInside scope.parent →
    scope.depth < maxSearch → unit.Shows offset scope frame → Sees unit offset scope.parent outer →
    Sees unit offset (some id) (frame :: outer)

/-- Looking outwards finds what the environment says, as long as there are steps. -/
theorem Sees.resolveFrom {around : Option ScopeId} {env : Environment}
    (h : unit.Sees offset around env) (name : String) {steps : Nat}
    (hs : unit.depthInside around ≤ steps) :
    Option.Rel unit.Means (unit.resolveFrom name offset steps around) (env.meaning? name) := by
  induction h generalizing steps with
  | top => cases steps <;> exact .none
  | @inside id scope frame outer hscope hdepth hmax hshows _ ih =>
    have hinside : unit.depthInside (some id) = scope.depth + 1 := by
      rw [depthInside, Option.bind_some, hscope]
    rw [hinside] at hs
    cases steps with
    | zero => exact absurd hs (Nat.not_succ_le_zero _)
    | succ steps =>
      rw [Environment.meaning?]
      simp only [BoundUnit.resolveFrom, hscope]
      rcases rel_cases (hshows name) with ⟨hf, hf'⟩ | ⟨number, meaning, hf, hf', hm⟩
      · rw [hf, hf', Option.none_or]
        exact ih (hdepth ▸ Nat.le_of_succ_le_succ hs)
      · rw [hf, hf', Option.some_or]
        exact .some hm

/-- The steps of a search are enough. -/
theorem Sees.resolve {around : Option ScopeId} {env : Environment} (h : unit.Sees offset around env)
    (name : String) :
    Option.Rel unit.Means (unit.resolve around name offset) (env.meaning? name) := by
  refine h.resolveFrom name ?_
  cases h with
  | top => exact Nat.zero_le _
  | inside hscope _ hmax =>
    rw [depthInside, Option.bind_some, hscope]
    exact hmax

end BoundUnit

end JavaNames
