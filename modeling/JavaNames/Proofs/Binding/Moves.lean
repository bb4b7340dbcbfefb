/-
What finding scopes and symbols does to a unit, whatever the tree looks like. A walk that ends well has
made three kinds of moves only: it has opened a scope inside one that was there, recorded the scope around
a node, and declared a name in a scope that was there. Main statement: such moves lead to every unit that
is found, so what each of them keeps holds of all units.
-/
import JavaNames.Binding.Visit
import JavaNames.Proofs.Binding.Growth

namespace JavaNames

open Binder (Context Pending)

/-! ## Moves -/

/-- The moves that lead from one unit to another. -/
inductive BoundUnit.Moves (options : BindOptions) (unit : BoundUnit) : BoundUnit → Prop
  | stay : Moves options unit unit
  | scope {next : BoundUnit} {parent : Option ScopeId} (kind : ScopeKind) (node : NodeId) :
    Moves options unit next → next.Knows parent →
    next.depthInside parent ≤ options.maxScopeDepth →
    Moves options unit (next.withScope kind node parent)
  | node {next : BoundUnit} {scope : Option ScopeId} (id : NodeId) :
    Moves options unit next → next.Knows scope → Moves options unit (next.withNode id scope)
  | declare {next : BoundUnit} {scope : Option ScopeId} (declaring : Link) (symbol : Symbol) :
    Moves options unit next → next.Knows scope →
    Moves options unit (next.withDeclared options scope declaring symbol)

section

variable {options : BindOptions} {unit unit' unit'' : BoundUnit}

theorem BoundUnit.Moves.trans (h : unit.Moves options unit') (h' : unit'.Moves options unit'') :
    unit.Moves options unit'' := by
  induction h' with
  | stay => exact h
  | scope kind node _ hk hd ih => exact .scope kind node ih hk hd
  | node id _ hk ih => exact .node id ih hk
  | declare declaring symbol _ hk ih => exact .declare declaring symbol ih hk

theorem BoundUnit.Moves.extends (h : unit.Moves options unit') : unit.Extends unit' := by
  induction h with
  | stay => exact .refl unit
  | scope kind node _ _ _ ih => exact ih.trans (extends_withScope _ _ _ _)
  | node id _ _ ih => exact ih.trans (extends_withNode _ _ _)
  | declare declaring symbol _ _ ih => exact ih.trans (extends_withDeclared _ _ _ _ _)

end

/-! ## Computations that make moves -/

namespace Binder

/-- Where a computation ends well from a unit, it has made moves, and its result has a property. -/
def Leads {α : Type} (options : BindOptions) (unit : BoundUnit) (x : Binder α)
    (P : α → BoundUnit → Prop) : Prop :=
  ∀ a next, x unit = .ok (a, next) → unit.Moves options next ∧ P a next

/-- The nodes that wait stand in scopes that are there. -/
def Standing (pending : Pending) (unit : BoundUnit) : Prop :=
  ∀ entry ∈ pending, unit.Knows entry.2.scope

namespace Leads

variable {options : BindOptions} {tree : Tree} {unit : BoundUnit} {α β : Type} {x : Binder α}
  {P Q : α → BoundUnit → Prop}

/-! ### Sequences -/

theorem ret {a : α} (h : P a unit) : Leads options unit (pure a) P := by
  intro b next hb
  obtain ⟨rfl, rfl⟩ := Prod.mk.inj (Except.ok.inj hb)
  exact ⟨.stay, h⟩

theorem seq {f : α → Binder β} {R : β → BoundUnit → Prop} (hx : Leads options unit x P)
    (hf : ∀ a next, unit.Moves options next → P a next → Leads options next (f a) R) :
    Leads options unit (x >>= f) R := by
  intro b last hb
  change (x unit >>= fun result => f result.1 result.2) = _ at hb
  cases hr : x unit with
  | error error =>
    rw [hr] at hb
    cases hb
  | ok result =>
    obtain ⟨a, next⟩ := result
    rw [hr] at hb
    obtain ⟨hmoves, ha⟩ := hx a next hr
    obtain ⟨hmoves', hb⟩ := hf a next hmoves ha b last hb
    exact ⟨hmoves.trans hmoves', hb⟩

theorem malformed (node : Link) (reason : Malformation) :
    Leads options unit (Binder.malformed node reason) P :=
  fun _ _ h => absurd h nofun

/-- Nothing follows a malformed tree. -/
theorem stop {f : α → Binder β} {R : β → BoundUnit → Prop} (node : Link) (reason : Malformation) :
    Leads options unit (Binder.malformed node reason >>= f) R :=
  fun _ _ h => absurd h nofun

theorem ite {c : Prop} [Decidable c] {y : Binder α} (hx : c → Leads options unit x P)
    (hy : ¬c → Leads options unit y P) : Leads options unit (if c then x else y) P := by
  split
  · exact hx ‹_›
  · exact hy ‹_›

/-- Computations one after the other, none of which asks for more than what is there already. -/
theorem forM {ι : Type} {f : ι → Binder Unit} (items : List ι)
    (h : ∀ item ∈ items, ∀ next, unit.Moves options next →
      Leads options next (f item) fun _ _ => True) :
    Leads options unit (items.forM f) fun _ _ => True := by
  induction items generalizing unit with
  | nil => exact ret trivial
  | cons item items ih =>
    refine seq (h item (.head _) unit .stay) fun _ next hmoves _ => ?_
    exact ih fun other ho later hl => h other (.tail _ ho) later (hmoves.trans hl)

/-! ### Steps -/

theorem openScope (kind : ScopeKind) (node : NodeId) {parent : Option ScopeId}
    (hk : unit.Knows parent) : Leads options unit (Binder.openScope options kind node parent)
      fun scope next => next.Knows (some scope) := by
  intro scope next h
  change (if unit.depthInside parent > options.maxScopeDepth then _ else _ : Binder ScopeId) unit = _
    at h
  split at h
  · cases h
  · obtain ⟨rfl, rfl⟩ := Prod.mk.inj (Except.ok.inj h)
    refine ⟨.scope kind node .stay hk (Nat.not_lt.1 ‹_›), ?_⟩
    rintro _ ⟨⟩
    exact ⟨_, (unit.scope?_withScope kind node parent _).trans (if_pos rfl)⟩

theorem declare (declaration : Declaration) (declaring name : Link)
    (hk : unit.Knows declaration.scope) :
    Leads options unit (Binder.declare options tree declaration declaring name)
      fun _ _ => True := by
  unfold Binder.declare
  split
  · exact ret trivial
  · intro _ next h
    obtain ⟨-, rfl⟩ := Prod.mk.inj (Except.ok.inj h)
    exact ⟨.declare _ _ .stay hk, trivial⟩

/-! ### Declarations -/

variable {context : Context} {scope : ScopeId}

theorem parameterAt (link : Link) :
    Leads options unit (Binder.parameterAt tree link) fun _ _ => True := by
  unfold Binder.parameterAt
  split
  · exact ret trivial
  · exact malformed _ _

theorem declaratorAt (link : Link) :
    Leads options unit (Binder.declaratorAt tree link) fun _ _ => True := by
  unfold Binder.declaratorAt
  split
  · exact ret trivial
  · exact malformed _ _

theorem declareParameter (hk : unit.Knows (some scope)) (kind : SymbolKind) (owner : NodeId)
    (link : Link) : Leads options unit (Binder.declareParameter options tree scope kind owner link)
      fun _ _ => True :=
  seq (parameterAt link) fun _ _ hmoves _ => declare _ _ _ (hmoves.extends.knows hk)

theorem declareComponentParameter (hk : unit.Knows (some scope)) (owner : NodeId) (link : Link) :
    Leads options unit (Binder.declareComponentParameter options tree scope owner link)
      fun _ _ => True :=
  seq (parameterAt link) fun _ _ hmoves _ => declare _ _ _ (hmoves.extends.knows hk)

theorem declareField (hk : unit.Knows context.scope) (set : Modifiers) (link : Link) :
    Leads options unit (Binder.declareField options tree context set link) fun _ _ => True :=
  seq (declaratorAt link) fun _ _ hmoves _ => declare _ _ _ (hmoves.extends.knows hk)

theorem declareLocal (hk : unit.Knows context.scope) (set : Modifiers) (link : Link) :
    Leads options unit (Binder.declareLocal options tree context set link) fun _ _ => True :=
  seq (declaratorAt link) fun _ _ hmoves _ => declare _ _ _ (hmoves.extends.knows hk)

theorem declareConstant (hk : unit.Knows (some scope)) (owner : NodeId) (link : Link) :
    Leads options unit (Binder.declareConstant options tree scope owner link) fun _ _ => True := by
  unfold Binder.declareConstant
  split
  · exact declare _ _ _ hk
  · exact malformed _ _

theorem declareResource (hk : unit.Knows (some scope)) (owner link : Link) :
    Leads options unit (Binder.declareResource options tree scope owner link) fun _ _ => True := by
  unfold Binder.declareResource
  split
  · exact ite (fun _ => ret trivial) fun _ => declare _ _ _ hk
  · exact malformed _ _

end Leads

end Binder

/-! ## Nodes that wait -/

namespace Binder

variable {unit : BoundUnit} {context : Context} {pending more : Pending}

theorem Standing.append (h : Standing pending unit) (h' : Standing more unit) :
    Standing (pending ++ more) unit := by
  intro entry he
  rcases List.mem_append.1 he with he | he
  · exact h entry he
  · exact h' entry he

theorem standing_pending (hk : unit.Knows context.scope) (links : List Link) :
    Standing (Binder.pending context links) unit := by
  intro entry he
  obtain ⟨link, -, hl⟩ := List.mem_filterMap.1 he
  obtain ⟨node, -, rfl⟩ := Option.map_eq_some_iff.1 hl
  exact hk

theorem standing_children (hk : unit.Knows context.scope) (node : Node) :
    Standing (pendingChildren context node) unit := by
  intro entry he
  obtain ⟨child, -, rfl⟩ := List.mem_map.1 he
  exact hk

/-! ## Constructs -/

namespace Leads

variable {options : BindOptions} {tree : Tree}

/-- A construct that opens a scope, declares names in it, and has all its children inside. -/
theorem inside {kind : ScopeKind} {opener : NodeId} {enter : ScopeId → Binder Unit} {owner : Link}
    {defaults : Modifiers} (node : Node) (hk : unit.Knows context.scope)
    (he : ∀ scope next, next.Knows (some scope) → Leads options next (enter scope) fun _ _ => True) :
    Leads options unit (do
      let scope ← Binder.openScope options kind opener context.scope
      enter scope
      return pendingChildren ⟨some scope, owner, defaults⟩ node) Standing := by
  refine seq (openScope kind opener hk) fun scope next _ hscope => ?_
  refine seq (he scope next hscope) fun _ later hl _ => ret ?_
  exact standing_children (hl.extends.knows hscope) node

/-- A construct with a body of members: only they stand inside. -/
theorem body {opener : NodeId} (outside members : List Link) (hk : unit.Knows context.scope) :
    Leads options unit (do
      let scope ← Binder.openScope options .typeBody opener context.scope
      return Binder.pending context outside ++ Binder.pending (.inside scope opener) members)
      Standing := by
  refine seq (openScope .typeBody opener hk) fun scope next hmoves hscope => ret ?_
  exact (standing_pending (hmoves.extends.knows hk) outside).append (standing_pending hscope members)

variable {id : NodeId} {node : Node} (hk : unit.Knows context.scope)
include hk

theorem visitType : Leads options unit (Binder.visitType options tree id node context) Standing := by
  unfold Binder.visitType
  split
  · refine seq (openScope .typeBody id hk) fun scope next _ hscope => ?_
    refine seq (forM _ fun link _ _ hm => declareParameter (hm.extends.knows hscope) _ _ link)
      fun _ later hl _ => ?_
    refine seq (forM _ fun link _ _ hm => declareConstant
      (hm.extends.knows (hl.extends.knows hscope)) _ link) fun _ last hlast _ => ret ?_
    exact standing_children (hlast.extends.knows (hl.extends.knows hscope)) _
  · exact malformed _ _

theorem visitConstant :
    Leads options unit (Binder.visitConstant options id node context) Standing := by
  unfold Binder.visitConstant
  split
  · split
    · exact ret (standing_pending hk _)
    · exact body _ _ hk
  · exact malformed _ _

theorem visitField : Leads options unit (Binder.visitField options tree id node context) Standing := by
  unfold Binder.visitField
  split
  · refine ite (fun _ => stop _ _) fun _ => ?_
    exact seq (forM _ fun link _ _ hm => declareField (hm.extends.knows hk) _ link)
      fun _ later hl _ => ret (standing_children (hl.extends.knows hk) node)
  · exact malformed _ _

theorem visitMethod : Leads options unit (Binder.visitMethod options tree id node context) Standing := by
  unfold Binder.visitMethod
  split
  · exact inside node hk fun scope next hscope =>
      forM _ fun link _ _ hm => declareParameter (hm.extends.knows hscope) _ _ link
  · exact malformed _ _

theorem visitCompactConstructor :
    Leads options unit (Binder.visitCompactConstructor options tree id node context) Standing := by
  unfold Binder.visitCompactConstructor
  split
  · exact inside node hk fun scope next hscope =>
      forM _ fun link _ _ hm => declareComponentParameter (hm.extends.knows hscope) _ link
  · exact malformed _ _

theorem visitLocals : Leads options unit (Binder.visitLocals options tree id node context) Standing := by
  unfold Binder.visitLocals
  split
  · exact seq (forM _ fun link _ _ hm => declareLocal (hm.extends.knows hk) _ link)
      fun _ later hl _ => ret (standing_children (hl.extends.knows hk) node)
  · exact malformed _ _

theorem visitForEach :
    Leads options unit (Binder.visitForEach options tree id node context) Standing := by
  unfold Binder.visitForEach
  split
  · rename_i element iterable statement _
    refine seq (openScope .forEachHeader id hk) fun scope next hmoves hscope => ?_
    have standing (later : BoundUnit) (hl : next.Moves options later) : Standing
        (Binder.pending (context.inScope scope) [element] ++ Binder.pending context [iterable] ++
          Binder.pending (context.inScope scope) [statement]) later :=
      ((standing_pending (hl.extends.knows hscope) _).append
        (standing_pending ((hmoves.trans hl).extends.knows hk) _)).append
        (standing_pending (hl.extends.knows hscope) _)
    refine ite (fun _ => ?_) fun _ => ret (standing next .stay)
    exact seq (declareParameter hscope _ _ _) fun _ later hl _ => ret (standing later hl)
  · exact malformed _ _

theorem visitTry : Leads options unit (Binder.visitTry options tree id node context) Standing := by
  unfold Binder.visitTry
  split
  · exact ret (standing_pending hk _)
  · split
    · refine ite (fun _ => stop _ _) fun _ => ?_
      refine seq (openScope .tryResourceList _ hk) fun scope next hmoves hscope => ?_
      refine seq (forM _ fun link _ _ hm => declareResource (hm.extends.knows hscope) _ link)
        fun _ later hl _ => ret ?_
      exact (standing_pending (hl.extends.knows hscope) _).append
        (standing_pending ((hmoves.trans hl).extends.knows hk) _)
    · exact malformed _ _
  · exact malformed _ _

theorem visitResourceList :
    Leads options unit (Binder.visitResourceList id node context) Standing := by
  unfold Binder.visitResourceList
  split
  · exact ite (fun _ => stop _ _) fun _ => ret (standing_children hk node)
  · exact malformed _ _

theorem visitCatch : Leads options unit (Binder.visitCatch options tree id node context) Standing := by
  unfold Binder.visitCatch
  split
  · refine seq (openScope .catchClause id hk) fun scope next _ hscope => ?_
    refine ite (fun _ => ?_) fun _ => ret (standing_children hscope node)
    exact seq (declareParameter hscope _ _ _) fun _ later hl _ =>
      ret (standing_children (hl.extends.knows hscope) node)
  · exact malformed _ _

theorem visitSwitch : Leads options unit (Binder.visitSwitch id node context) Standing := by
  unfold Binder.visitSwitch
  split
  · exact ite (fun _ => stop _ _) fun _ => ret (standing_children hk node)
  · exact malformed _ _

theorem visitLambda : Leads options unit (Binder.visitLambda options tree id node context) Standing := by
  unfold Binder.visitLambda
  split
  · exact inside node hk fun scope next hscope =>
      forM _ fun link _ _ hm => declareParameter (hm.extends.knows hscope) _ _ link
  · exact malformed _ _

theorem visitCreation :
    Leads options unit (Binder.visitCreation options id node context) Standing := by
  unfold Binder.visitCreation
  split
  · split
    · exact ret (standing_pending hk _)
    · exact body _ _ hk
  · exact malformed _ _

theorem visitRegion (kind : ScopeKind) :
    Leads options unit (Binder.visitRegion options kind id node context) Standing :=
  seq (openScope kind id hk) fun _ _ _ hscope => ret (standing_children hscope node)

/-- Visiting a node makes moves, and its children stand in scopes that are there. -/
theorem visitNode : Leads options unit (Binder.visitNode options tree id node context) Standing := by
  unfold Binder.visitNode
  split
  case h_6 => exact visitConstant hk
  case h_7 => exact visitField hk
  case h_8 | h_9 => exact visitMethod hk
  case h_10 => exact visitCompactConstructor hk
  case h_11 =>
    have hinner : unit.Knows (⟨context.scope, some id, .none⟩ : Context).scope := hk
    exact ret (standing_children hinner node)
  case h_12 | h_14 | h_21 => exact visitRegion hk _
  case h_13 => exact visitLocals hk
  case h_15 => exact visitForEach hk
  case h_16 => exact visitTry hk
  case h_17 => exact visitResourceList hk
  case h_18 => exact visitCatch hk
  case h_19 | h_20 => exact visitSwitch hk
  case h_22 => exact visitLambda hk
  case h_23 => exact visitCreation hk
  case h_24 => exact ret (standing_children hk node)
  all_goals exact visitType hk

end Leads

/-- Walking over a node and what is below it makes moves. -/
theorem visit_leads {options : BindOptions} {tree : Tree} (depth : Nat) {id : NodeId}
    (hk : unit.Knows context.scope) :
    Leads options unit (visit options tree depth id context) fun _ _ => True := by
  induction depth generalizing id context unit with
  | zero => exact .ret trivial
  | succ depth ih =>
    rw [visit]
    split
    · exact .malformed _ _
    · refine .seq (P := fun _ next => next.Knows context.scope) (fun _ next h => ?_)
        fun _ next _ hn => .seq (.visitNode hn) fun children later _ hc =>
          .forM children fun entry he last hl => ih (hl.extends.knows (hc entry he))
      obtain ⟨-, rfl⟩ := Prod.mk.inj (Except.ok.inj h)
      exact ⟨.node id .stay hk, (unit.extends_withNode id context.scope).knows hk⟩

end Binder

/-- Every unit that is found for a tree comes from the empty unit by moves. -/
theorem Tree.moves_of_bind {tree : Tree} {root : Link} {file : String} {options : BindOptions}
    {bound : BoundUnit} (h : tree.bind root file options = .ok bound) :
    ∃ id, (BoundUnit.empty file id).Moves options bound := by
  unfold Tree.bind at h
  split at h
  · rename_i id _
    refine ⟨id, ?_⟩
    change (Binder.visit options tree _ id .top (.empty file id)).map (·.2) = _ at h
    generalize hvisit : Binder.visit options tree _ id .top (.empty file id) = result at h
    cases result with
    | error => cases h
    | ok result =>
      cases h
      have hk : (BoundUnit.empty file id).Knows Context.top.scope := nofun
      exact (Binder.visit_leads _ hk _ _ hvisit).1
  · cases h

end JavaNames
