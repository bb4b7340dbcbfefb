/-
Places and the order of a traversal. The children of a node cover the source one behind the other, so
what is declared in one of them comes before every offset in those that follow. Main statement: a frame
that grows while nodes are passed holds, at each of them, the names that come before its offsets.
-/
import JavaNames.Proofs.Meaning.Sight
import JavaNames.Proofs.Tree.Places

namespace JavaNames

/-! ## Answers -/

namespace BoundUnit

variable (unit : BoundUnit) (tree : Tree)

/-- What the symbol with a number means. -/
def meaning? (id : Option SymbolId) : Option Meaning := (id.bind unit.symbol?).map Symbol.meaning

/-- What the names from a node down mean. -/
def answers (id : NodeId) : List Answer :=
  ((tree.nameUses id).filterMap (unit.resolveUse? tree)).map fun use =>
    (use.node, unit.meaning? use.symbol)

variable {unit tree}

theorem meaning?_eq {id : Option SymbolId} {meaning : Option Meaning}
    (h : Option.Rel unit.Means id meaning) : unit.meaning? id = meaning := by
  cases h with
  | none => rfl
  | some h =>
    obtain ⟨symbol, hs, rfl⟩ := h
    rw [meaning?, Option.bind_some, hs, Option.map_some]

end BoundUnit

namespace Tree

variable {tree : Tree} {id : NodeId} {node : Node}

theorem answers_eq (hw : tree.WellFormed) (hn : tree.node? id = some node)
    (hk : node.kind ≠ .nameExpression) (unit : BoundUnit) :
    unit.answers tree id = (tree.children id).flatMap (unit.answers tree) := by
  rw [BoundUnit.answers, nameUses_eq hw hn, if_neg hk, List.nil_append, List.filterMap_flatMap,
    List.map_flatMap]
  rfl

end Tree

/-! ## Passing nodes one after the other -/

namespace Pass

variable {pass : NodeId → Pass} {answers : NodeId → List Answer} {ids : List NodeId}

/-- Nodes that leave the environment as it is. -/
theorem all_eq {env : Environment} (h : ∀ id ∈ ids, pass id env = (answers id, env)) :
    all pass ids env = (ids.flatMap answers, env) := by
  induction ids with
  | nil => rfl
  | cons id ids ih =>
    rw [all, andThen, h id (.head _), ih fun other ho => h other (.tail _ ho), List.flatMap_cons]

/-- Nodes that make the innermost frame grow, each by names of its own, and that stand one behind the
other. When a node is passed, the frame holds the names that come before it, and those that it gives
itself or that come behind it are not yet there. -/
theorem all_growing {tree : Tree} {given : NodeId → List Symbol} {total before behind : List Symbol}
    {outer : Environment}
    (hapart : ids.Pairwise fun id other => tree.Apart (.inl id) (.inl other))
    (hmarks : ∀ id ∈ ids, ∀ symbol ∈ given id, tree.Marks id symbol.visibleFrom)
    (htotal : total = before ++ ids.flatMap given ++ behind)
    (hbefore : ∀ id ∈ ids, ∀ symbol ∈ before, ∀ offset, tree.Covers id offset →
      symbol.visibleFrom ≤ offset)
    (hbehind : ∀ id ∈ ids, ∀ symbol ∈ behind, ∀ offset, tree.Covers id offset →
      offset < symbol.visibleFrom)
    (h : ∀ id ∈ ids, ∀ before behind, total = before ++ given id ++ behind →
      (∀ symbol ∈ before, ∀ offset, tree.Covers id offset → symbol.visibleFrom ≤ offset) →
      (∀ symbol ∈ behind, ∀ offset, tree.Covers id offset → offset < symbol.visibleFrom) →
      pass id (.ofSymbols before :: outer) =
        (answers id, .ofSymbols (before ++ given id) :: outer)) :
    all pass ids (.ofSymbols before :: outer) =
      (ids.flatMap answers, .ofSymbols (before ++ ids.flatMap given) :: outer) := by
  induction ids generalizing before with
  | nil =>
    simp only [List.flatMap_nil, List.append_nil]
    rfl
  | cons id ids ih =>
    obtain ⟨hfirst, hrest⟩ := List.pairwise_cons.1 hapart
    rw [List.flatMap_cons] at htotal
    have hpass := h id (.head _) before (ids.flatMap given ++ behind)
      (by rw [htotal]; simp only [List.append_assoc]) (hbefore id (.head _)) ?_
    · have hall : all pass ids (.ofSymbols (before ++ given id) :: outer) =
          (ids.flatMap answers, .ofSymbols (before ++ given id ++ ids.flatMap given) :: outer) := by
        refine ih hrest (fun other ho => hmarks other (.tail _ ho)) ?_ ?_
          (fun other ho => hbehind other (.tail _ ho)) fun other ho => h other (.tail _ ho)
        · rw [htotal]
          simp only [List.append_assoc]
        · intro other ho symbol hs offset hcovers
          rcases List.mem_append.1 hs with hs | hs
          · exact hbefore other (.tail _ ho) symbol hs offset hcovers
          · exact (hfirst other ho).le_of_marks (hmarks id (.head _) symbol hs) hcovers
      rw [all, andThen, hpass, hall]
      simp only [List.flatMap_cons, List.append_assoc]
    · intro symbol hs offset hcovers
      rcases List.mem_append.1 hs with hs | hs
      · obtain ⟨other, ho, hs⟩ := List.mem_flatMap.1 hs
        exact (hfirst other ho).lt_of_marks hcovers (hmarks other (.tail _ ho) symbol hs)
      · exact hbehind id (.head _) symbol hs offset hcovers

end Pass

end JavaNames
