/-
The scopes of a file as an indented text: one line for each scope, with its place and the names in its
table. A scope stands below the scope around it, and scopes in one scope stand in the order in which
they were found.
-/
import JavaNames.Binding.Resolution
import JavaNames.Text.LineMap

namespace JavaNames.ScopeTree

/-! ## Lines -/

/-- The names of a scope with the kinds of their symbols. -/
def nameTexts (unit : BoundUnit) (scope : Scope) : List String :=
  scope.table.entries.filterMap fun entry =>
    (unit.symbol? entry.symbol).map fun symbol =>
      let name := entry.name
      let kind := symbol.kind.name
      s!"{name}: {kind}"

/-- The names of a scope in brackets, or nothing when it has none. -/
def namesText (unit : BoundUnit) (scope : Scope) : String :=
  match nameTexts unit scope with
  | [] => ""
  | names =>
    let all := ", ".intercalate names
    s!" [{all}]"

/-- The line of a scope: two spaces for each scope around it, what opens it, and where. -/
def line (unit : BoundUnit) (tree : Tree) (map : Text.LineMap) (scope : Scope) : String :=
  let start := ((tree.node? scope.node).map (·.start)).getD 0
  let place := map.position start
  let indent := "".pushn ' ' (2 * scope.depth)
  let kind := scope.kind.name
  let row := place.line + 1
  let column := place.character + 1
  let names := namesText unit scope
  s!"{indent}{kind} {row}:{column}{names}\n"

/-! ## Order -/

/-- The scopes that are met when, at most `steps` times, the top of a stack is taken off and the scopes
directly inside it are put on the stack, the first of them on top. -/
def unstack (inside : ScopeId → List ScopeId) : Nat → List ScopeId → List ScopeId
  | 0, _ | _, [] => []
  | steps + 1, id :: stack => id :: unstack inside steps (inside id ++ stack)

/-- All scopes, those inside a scope right behind it. No scope is met twice, so there are no more steps
than scopes. -/
def order (unit : BoundUnit) : List ScopeId :=
  let lists := unit.childLists
  unstack (fun id => lists.getD id []) unit.scopes.size (unit.scopeChildren none)

theorem unstack_nil (inside : ScopeId → List ScopeId) (steps : Nat) : unstack inside steps [] = [] := by
  cases steps <;> rfl

/-- What is taken off a stack depends on what is inside the scopes that can get onto it. -/
theorem unstack_congr {inside other : ScopeId → List ScopeId} {P : ScopeId → Prop}
    (he : ∀ id, P id → inside id = other id) (hp : ∀ id, ∀ child ∈ other id, P child) (steps : Nat)
    {stack : List ScopeId} (hs : ∀ id ∈ stack, P id) :
    unstack inside steps stack = unstack other steps stack := by
  induction steps generalizing stack with
  | zero => rw [unstack, unstack]
  | succ steps ih =>
    cases stack with
    | nil => rw [unstack_nil, unstack_nil]
    | cons id stack =>
      obtain ⟨hid, hrest⟩ := List.forall_mem_cons.1 hs
      rw [unstack, unstack, he id hid, ih fun child hc => ?_]
      exact (List.mem_append.1 hc).elim (hp id child) (hrest child)

/-- The lists that are made in one pass are those of the scopes directly inside each scope. -/
theorem order_eq (unit : BoundUnit) :
    order unit = unstack (fun id => unit.scopeChildren (some id)) unit.scopes.size
      (unit.scopeChildren none) :=
  unstack_congr (fun _ => BoundUnit.childLists_getD)
    (fun _ _ => BoundUnit.lt_size_of_mem_scopeChildren) _
    fun _ => BoundUnit.lt_size_of_mem_scopeChildren

/-- The text for all scopes of a unit. -/
def render (unit : BoundUnit) (tree : Tree) (source : String) : String :=
  let map := Text.LineMap.ofSource source
  "".intercalate ((order unit).filterMap fun id =>
    (unit.scope? id).map (line unit tree map))

end JavaNames.ScopeTree
