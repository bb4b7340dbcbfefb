/-
The order in which a walk meets the nodes. The walk keeps a list of waiting nodes, takes the first one,
visits it, and puts what the visit hands on in front of the others. Main statement: over a tree it takes
every node below the root once, in preorder.
-/
import JavaNames.Proofs.Binding.Options

namespace JavaNames

open Binder (Context Pending)

/-- The steps of a walk with the nodes that it takes. -/
inductive Walks (options : BindOptions) (tree : Tree) :
    Pending → BoundUnit → List NodeId → BoundUnit → Prop
  | done (unit : BoundUnit) : Walks options tree [] unit [] unit
  | step {id : NodeId} {context : Context} {node : Node} {rest children : Pending}
    {unit next last : BoundUnit} {visited : List NodeId} : tree.node? id = some node →
    Binder.visitNode options tree id node context (unit.withNode id context.scope) =
      .ok (children, next) →
    Walks options tree (children ++ rest) next visited last →
    Walks options tree ((id, context) :: rest) unit (id :: visited) last

variable {options : BindOptions} {tree : Tree} {pending rest : Pending} {unit next last : BoundUnit}
  {visited others : List NodeId}

namespace Walks

theorem append (h : Walks options tree pending unit visited next)
    (h' : Walks options tree rest next others last) :
    Walks options tree (pending ++ rest) unit (visited ++ others) last := by
  induction h with
  | done => exact h'
  | step hn hv _ ih =>
    refine .step hn hv ?_
    have h := ih h'
    rwa [List.append_assoc] at h

/-- There is one walk. -/
theorem unique (h : Walks options tree pending unit visited next)
    (h' : Walks options tree pending unit others last) : others = visited ∧ last = next := by
  induction h generalizing others last with
  | done unit =>
    cases h' with
    | done => exact ⟨rfl, rfl⟩
  | step hn hv _ ih =>
    cases h' with
    | step hn' hv' hrest =>
      obtain rfl := Option.some.inj (hn.symm.trans hn')
      obtain ⟨rfl, rfl⟩ := Prod.mk.inj (Except.ok.inj (hv.symm.trans hv'))
      obtain ⟨rfl, rfl⟩ := ih hrest
      exact ⟨rfl, rfl⟩

/-- Waiting nodes are walked over one after the other. -/
theorem of_forM {visit : NodeId × Context → Binder Unit} {nodes : NodeId → List NodeId}
    (h : ∀ entry ∈ pending, ∀ unit next, visit entry unit = .ok ((), next) →
      Walks options tree [entry] unit (nodes entry.1) next)
    (hv : pending.forM visit unit = .ok ((), last)) :
    Walks options tree pending unit ((pending.map Prod.fst).flatMap nodes) last := by
  induction pending generalizing unit with
  | nil =>
    cases hv
    exact .done _
  | cons entry rest ih =>
    obtain ⟨_, next, hfirst, hrest⟩ := Binder.Follows.exists_of_bind_ok hv
    rw [List.map_cons, List.flatMap_cons]
    exact (h entry (.head _) unit next hfirst).append
      (ih (fun other ho => h other (.tail _ ho)) hrest)

end Walks

/-- A visit with enough steps walks over the nodes below in preorder. -/
theorem Binder.visit_walks {depth steps : Nat} {id : NodeId} {context : Context}
    (hd : tree.Shallow depth id) (hs : depth < steps)
    (h : Binder.visit options tree steps id context unit = .ok ((), last)) :
    Walks options tree [(id, context)] unit (tree.preorder steps id) last := by
  induction depth generalizing id context unit last steps with
  | zero =>
    obtain ⟨steps, rfl⟩ := Nat.exists_eq_succ_of_ne_zero (Nat.ne_of_gt hs)
    rw [visit, Tree.node?_eq_none.2 hd] at h
    cases h
  | succ depth ih =>
    obtain ⟨steps, rfl⟩ := Nat.exists_eq_succ_of_ne_zero (Nat.ne_of_gt (Nat.zero_lt_of_lt hs))
    rw [visit] at h
    cases hn : tree.node? id with
    | none =>
      rw [hn] at h
      cases h
    | some node =>
      rw [hn] at h
      replace h : (visitNode options tree id node context >>= fun children =>
          children.forM fun entry => visit options tree steps entry.1 entry.2)
            (unit.withNode id context.scope) = .ok ((), last) := h
      obtain ⟨children, next, hvisit, hrest⟩ := Follows.exists_of_bind_ok h
      obtain ⟨hands, -⟩ := (Follows.visitNode options options tree id node context).grows hvisit
      have hbelow := Walks.of_forM (fun entry he unit next =>
        ih (hd entry.1 (hands.mem hn he)) (Nat.lt_of_succ_lt_succ hs)) hrest
      rw [hands, ← Tree.children_eq hn] at hbelow
      rw [Tree.preorder, if_pos (Tree.lt_size_of_node? hn)]
      refine .step hn hvisit ?_
      rwa [List.append_nil]

/-- Where a unit is found for a tree, the walk takes the nodes below the root in preorder, and this is the
only walk there is. -/
theorem Tree.Branching.walks_iff {root : NodeId} {file : String} {bound : BoundUnit}
    (hb : tree.Branching root) (h : tree.bind root file options = .ok bound) :
    Walks options tree [(root, .top)] (.empty file root) visited last ↔
      visited = tree.descendants root ∧ last = bound := by
  obtain ⟨-, hvisit⟩ := Tree.visit_of_bind h
  have hwalks := Binder.visit_walks hb.shallow (tree.size_lt_steps options) hvisit
  rw [← hb.descendants_eq (tree.size_lt_steps options)] at hwalks
  constructor
  · exact fun hother => hwalks.unique hother
  · rintro ⟨rfl, rfl⟩
    exact hwalks

end JavaNames
