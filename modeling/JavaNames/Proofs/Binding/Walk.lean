/-
The walk over a tree as a sequence of steps: the next node is taken from those that wait, its plan is
carried out, and its children are put in front of the others. Main statement: a walk goes on until no
node waits, or ends at a scope that has too many others around it.
-/
import JavaNames.Proofs.Binding.Growth
import JavaNames.Proofs.Binding.Visit
import JavaNames.Proofs.Tree.Walk

namespace JavaNames

open Binder (Context Pending)

namespace Binder

variable {α β : Type} {x : Binder α} {f : α → Binder β} {unit : BoundUnit}

theorem bind_ok {a : α} {next : BoundUnit} (h : x unit = .ok (a, next)) :
    (x >>= f) unit = f a next := by
  change (x unit >>= fun result => f result.1 result.2) = _
  rw [h]
  rfl

theorem bind_error {error : BindError} (h : x unit = .error error) :
    (x >>= f) unit = .error error := by
  change (x unit >>= fun result => f result.1 result.2) = _
  rw [h]
  rfl

theorem openScope_ok {options : BindOptions} {parent : Option ScopeId}
    (h : unit.depthInside parent ≤ options.maxScopeDepth) (kind : ScopeKind) (node : NodeId) :
    openScope options kind node parent unit =
      .ok (unit.scopes.size, unit.withScope kind node parent) := by
  change (if unit.depthInside parent > options.maxScopeDepth then _ else _ : Binder ScopeId) unit = _
  rw [if_neg (Nat.not_lt.2 h)]
  rfl

theorem openScope_error {options : BindOptions} {parent : Option ScopeId}
    (h : options.maxScopeDepth < unit.depthInside parent) (kind : ScopeKind) (node : NodeId) :
    openScope options kind node parent unit = .error (.tooDeep node options.maxScopeDepth) := by
  change (if unit.depthInside parent > options.maxScopeDepth then _ else _ : Binder ScopeId) unit = _
  rw [if_pos h]
  rfl

end Binder

/-! ## Carrying out a plan in one step -/

/-- The unit in which a name is declared in a scope. -/
def Naming.declared (options : BindOptions) (tree : Tree) (scope : Option ScopeId) (unit : BoundUnit)
    (naming : Naming) : BoundUnit :=
  match naming.symbol? tree with
  | none => unit
  | some symbol => unit.withDeclared options scope naming.declaring symbol

theorem Naming.enter_eq (options : BindOptions) (tree : Tree) (scope : Option ScopeId)
    (naming : Naming) (unit : BoundUnit) :
    naming.enter options tree scope unit = .ok ((), naming.declared options tree scope unit) := by
  rw [Naming.enter, Binder.declare, Naming.declared]
  change (match naming.symbol? tree with
    | none => pure ()
    | some symbol => modify fun unit => unit.withDeclared options scope naming.declaring symbol :
      Binder Unit) unit = _
  cases naming.symbol? tree <;> rfl

theorem Naming.forM_enter (options : BindOptions) (tree : Tree) (scope : Option ScopeId)
    (names : List Naming) (unit : BoundUnit) :
    names.forM (Naming.enter options tree scope) unit =
      .ok ((), names.foldl (Naming.declared options tree scope) unit) := by
  induction names generalizing unit with
  | nil => rfl
  | cons naming names ih =>
    exact (Binder.bind_ok (naming.enter_eq options tree scope unit)).trans (ih _)

namespace Plan

section

variable (options : BindOptions) (tree : Tree) (context : Context) (plan : Plan) (unit : BoundUnit)

/-- The innermost scope inside a construct. -/
def inside : Option ScopeId :=
  match plan.opened with
  | none => context.scope
  | some _ => some unit.scopes.size

/-- The unit in which the scope of a construct is open. -/
def opening : BoundUnit :=
  match plan.opened with
  | none => unit
  | some (kind, node) => unit.withScope kind node context.scope

/-- The unit in which a construct has done what it does itself. -/
def filled : BoundUnit :=
  plan.names.foldl (Naming.declared options tree (plan.inside context unit))
    (plan.opening context unit)

/-- Whether the scope of a construct would have too many others around it. -/
def TooDeep : Prop :=
  plan.opened.isSome ∧ options.maxScopeDepth < unit.depthInside context.scope

end

section

variable {options : BindOptions} {tree : Tree} {context : Context} {plan : Plan} {unit : BoundUnit}

theorem run_ok (h : ¬plan.TooDeep options context unit) :
    plan.run options tree context unit =
      .ok (plan.pending context (plan.inside context unit), plan.filled options tree context unit) := by
  cases ho : plan.opened with
  | none =>
    rw [run_of_closed ho, filled, inside, opening, ho, Binder.bind_ok (Naming.forM_enter _ _ _ _ _)]
    rfl
  | some opened =>
    obtain ⟨kind, node⟩ := opened
    have hdepth : unit.depthInside context.scope ≤ options.maxScopeDepth :=
      Nat.not_lt.1 fun hlt => h ⟨by rw [ho]; rfl, hlt⟩
    rw [run_of_opened ho, filled, inside, opening, ho,
      Binder.bind_ok (Binder.openScope_ok hdepth kind node),
      Binder.bind_ok (Naming.forM_enter _ _ _ _ _)]
    rfl

theorem run_error {kind : ScopeKind} {node : NodeId} (ho : plan.opened = some (kind, node))
    (h : options.maxScopeDepth < unit.depthInside context.scope) :
    plan.run options tree context unit = .error (.tooDeep node options.maxScopeDepth) := by
  rw [run_of_opened ho, Binder.bind_error (Binder.openScope_error h kind node)]

/-- A step of the walk records the scope around a node, carries out its plan, and goes on with the
children. -/
theorem visit_succ {id : NodeId} {node : Node} (hw : tree.WellFormed) (hn : tree.node? id = some node)
    (hf : Fits tree node context) (depth : Nat) :
    Binder.visit options tree (depth + 1) id context unit =
      ((Plan.of tree id node context).run options tree context >>= fun children =>
        children.forM fun entry => Binder.visit options tree depth entry.1 entry.2)
        (unit.withNode id context.scope) := by
  have hvisit : Binder.visit options tree (depth + 1) id context unit =
      (Binder.recordScope id context.scope >>= fun _ =>
        Binder.visitNode options tree id node context >>= fun children =>
          children.forM fun entry => Binder.visit options tree depth entry.1 entry.2) unit := by
    rw [Binder.visit, hn]
  rw [hvisit, Binder.bind_ok rfl, visitNode_eq hw hn hf]

end

end Plan

/-! ## Sequences of steps -/

theorem Naming.extends_declared (options : BindOptions) (tree : Tree) (scope : Option ScopeId)
    (names : List Naming) (unit : BoundUnit) :
    unit.Extends (names.foldl (Naming.declared options tree scope) unit) := by
  induction names generalizing unit with
  | nil => exact .refl unit
  | cons naming names ih =>
    refine .trans ?_ (ih _)
    rw [Naming.declared]
    cases naming.symbol? tree with
    | none => exact .refl unit
    | some symbol => exact unit.extends_withDeclared options scope naming.declaring symbol

/-- What no declared name changes stays as it is. -/
theorem Naming.foldl_declared_eq {α : Type} (read : BoundUnit → α) {options : BindOptions}
    {scope : Option ScopeId}
    (h : ∀ (unit : BoundUnit) (declaring : Link) (symbol : Symbol),
      read (unit.withDeclared options scope declaring symbol) = read unit)
    (tree : Tree) (names : List Naming) (unit : BoundUnit) :
    read (names.foldl (Naming.declared options tree scope) unit) = read unit := by
  induction names generalizing unit with
  | nil => rfl
  | cons naming names ih =>
    rw [List.foldl_cons, ih, Naming.declared]
    cases naming.symbol? tree with
    | none => rfl
    | some symbol => exact h unit naming.declaring symbol

namespace Plan

theorem extends_filled (options : BindOptions) (tree : Tree) (context : Context) (plan : Plan)
    (unit : BoundUnit) : unit.Extends (plan.filled options tree context unit) := by
  refine .trans ?_ (Naming.extends_declared _ _ _ _ _)
  rw [opening]
  cases plan.opened with
  | none => exact .refl unit
  | some opened => exact unit.extends_withScope opened.1 opened.2 context.scope

end Plan

/-! ## Inside a construct -/

namespace Plan

variable (options : BindOptions) (tree : Tree) (context : Context) (plan : Plan) (unit : BoundUnit)

theorem inside_of_opened {opened : ScopeKind × NodeId} (ho : plan.opened = some opened) :
    plan.inside context unit = some unit.scopes.size := by
  rw [inside, ho]

/-- The scope that a construct has opened. -/
theorem exists_opened {kind : ScopeKind} {node : NodeId} (ho : plan.opened = some (kind, node)) :
    ∃ table, (plan.filled options tree context unit).scope? unit.scopes.size =
      some ⟨kind, context.scope, node, unit.depthInside context.scope, table⟩ := by
  have hopen : (plan.opening context unit).scope? unit.scopes.size =
      some ⟨kind, context.scope, node, unit.depthInside context.scope, .empty⟩ := by
    rw [opening, ho]
    exact (unit.scope?_withScope kind node context.scope _).trans (if_pos rfl)
  exact (Naming.extends_declared options tree _ plan.names _).scopes hopen

variable {context unit}

theorem knows_inside (hk : unit.Knows context.scope) :
    (plan.filled options tree context unit).Knows (plan.inside context unit) := by
  cases ho : plan.opened with
  | none =>
    rw [inside, ho]
    exact (plan.extends_filled options tree context unit).knows hk
  | some opened =>
    obtain ⟨table, hs⟩ := plan.exists_opened options tree context unit ho
    rw [plan.inside_of_opened context unit ho]
    rintro _ ⟨⟩
    exact ⟨_, hs⟩

/-- Inside a construct that opens a scope there is one scope more around a name. -/
theorem depthInside_inside (hk : unit.Knows context.scope) :
    (plan.filled options tree context unit).depthInside (plan.inside context unit) =
      unit.depthInside context.scope + if plan.opened.isSome then 1 else 0 := by
  cases ho : plan.opened with
  | none =>
    rw [inside, ho]
    exact (plan.extends_filled options tree context unit).depthInside_eq hk
  | some opened =>
    obtain ⟨table, hs⟩ := plan.exists_opened options tree context unit ho
    rw [plan.inside_of_opened context unit ho, BoundUnit.depthInside, Option.bind_some, hs]
    rfl

end Plan

/-! ## Steps -/

/-- The steps of a walk that is not stopped. -/
inductive Binds (options : BindOptions) (tree : Tree) : Pending → BoundUnit → BoundUnit → Prop
  | done (unit : BoundUnit) : Binds options tree [] unit unit
  | step {id : NodeId} {context : Context} {node : Node} {rest : Pending} {unit unit' : BoundUnit} :
    tree.node? id = some node →
    ¬(Plan.of tree id node context).TooDeep options context (unit.withNode id context.scope) →
    Binds options tree
      ((Plan.of tree id node context).pending context
        ((Plan.of tree id node context).inside context (unit.withNode id context.scope)) ++ rest)
      ((Plan.of tree id node context).filled options tree context
        (unit.withNode id context.scope)) unit' →
    Binds options tree ((id, context) :: rest) unit unit'

/-- How a walk ends: with a unit in which everything has been found, or at a scope that has too many
others around it, which cannot be unless there may be `most` others. -/
inductive Ends (options : BindOptions) (tree : Tree) (pending : Pending) (unit : BoundUnit)
    (most : Nat) : Except BindError (Unit × BoundUnit) → Prop
  | ok {unit' : BoundUnit} : Binds options tree pending unit unit' →
    Ends options tree pending unit most (.ok ((), unit'))
  | tooDeep (node : NodeId) : options.maxScopeDepth < most →
    Ends options tree pending unit most (.error (.tooDeep node options.maxScopeDepth))

section

variable {options : BindOptions} {tree : Tree} {pending rest : Pending} {unit unit' unit'' : BoundUnit}

theorem Binds.append (h : Binds options tree pending unit unit')
    (h' : Binds options tree rest unit' unit'') : Binds options tree (pending ++ rest) unit unit'' := by
  induction h with
  | done => exact h'
  | step hn hd _ ih =>
    refine .step hn hd ?_
    have h := ih h'
    rwa [List.append_assoc] at h

theorem Binds.extends (h : Binds options tree pending unit unit') : unit.Extends unit' := by
  induction h with
  | done unit => exact .refl unit
  | step _ _ _ ih =>
    exact ((BoundUnit.extends_withNode _ _ _).trans (Plan.extends_filled _ _ _ _ _)).trans ih

end

end JavaNames
