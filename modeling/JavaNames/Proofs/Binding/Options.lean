/-
The same walk under two settings of the options. While no scope is deeper than the second setting allows,
both walks do the same, diagnostics apart; at the first scope that is too deep the second one ends. Main
statement: this holds of every construct and so of a whole walk, whatever the tree looks like.
-/
import JavaNames.Proofs.Binding.Outwards
import JavaNames.Proofs.Tree.Shape

namespace JavaNames

open Binder (Context Pending Declaration)

/-! ## Units under two settings -/

namespace BoundUnit

/-- Units that differ in diagnostics at most, and do not even differ in these where both settings report
the same. -/
structure Alike (options other : BindOptions) (unit unit' : BoundUnit) : Prop where
  rest : unit' = { unit with diagnostics := unit'.diagnostics }
  diagnostics : options.reportDuplicates = other.reportDuplicates →
    unit'.diagnostics = unit.diagnostics

/-- No scope has more others around it than a limit says. -/
def Within (unit : BoundUnit) (limit : Nat) : Prop :=
  ∀ id scope, unit.scope? id = some scope → scope.depth ≤ limit

/-- The first scope that is deeper than a limit is that of a node. -/
def Passes (unit : BoundUnit) (limit : Nat) (node : NodeId) : Prop :=
  ∃ id scope, unit.scope? id = some scope ∧ scope.node = node ∧ limit < scope.depth ∧
    ∀ earlier < id, ∀ found, unit.scope? earlier = some found → found.depth ≤ limit

variable {options other : BindOptions} {unit unit' next : BoundUnit} {limit : Nat}

/-- A name that is new in its scope is entered there. -/
theorem withName_new {scope : ScopeId} {symbol : Symbol} {id : SymbolId}
    (h : ((unit.scope? scope).bind fun s => s.table.symbol? symbol.name) = none) :
    unit.withName options scope symbol id =
      { unit with scopes := unit.scopes.modify scope fun s =>
          { s with table := s.table.insert ⟨symbol.name, id, symbol.visibleFrom⟩ } } := by
  rw [withName, h]

/-- A name that its scope has already is reported at most. -/
theorem withName_known {scope : ScopeId} {symbol : Symbol} {id existing : SymbolId}
    (h : ((unit.scope? scope).bind fun s => s.table.symbol? symbol.name) = some existing) :
    unit.withName options scope symbol id =
      if options.reportDuplicates then
        { unit with diagnostics := unit.diagnostics.push (unit.duplicate symbol existing) }
      else unit := by
  rw [withName, h]

namespace Alike

theorem refl (options other : BindOptions) (unit : BoundUnit) : unit.Alike options other unit :=
  ⟨rfl, fun _ => rfl⟩

theorem symbols_eq (h : unit.Alike options other unit') : unit'.symbols = unit.symbols := by
  rw [h.rest]

theorem scopes_eq (h : unit.Alike options other unit') : unit'.scopes = unit.scopes := by
  rw [h.rest]

/-- What does not read the diagnostics is the same for both units. -/
theorem depthInside_eq (h : unit.Alike options other unit') (parent : Option ScopeId) :
    unit'.depthInside parent = unit.depthInside parent := by
  rw [h.rest]
  rfl

theorem withScope (h : unit.Alike options other unit') (kind : ScopeKind) (node : NodeId)
    (parent : Option ScopeId) :
    (unit.withScope kind node parent).Alike options other (unit'.withScope kind node parent) := by
  constructor
  · rw [h.rest]
    rfl
  · exact h.diagnostics

theorem withNode (h : unit.Alike options other unit') (node : NodeId) (scope : Option ScopeId) :
    (unit.withNode node scope).Alike options other (unit'.withNode node scope) := by
  cases scope with
  | none => exact h
  | some id =>
    constructor
    · rw [h.rest]
      rfl
    · exact h.diagnostics

theorem withSymbol (h : unit.Alike options other unit') (declaring : Link) (symbol : Symbol) :
    (unit.withSymbol declaring symbol).Alike options other (unit'.withSymbol declaring symbol) := by
  constructor
  · rw [h.rest]
    rfl
  · exact h.diagnostics

/-- A name that its scope has already is reported by both settings, by one of them, or by none. -/
theorem withName (h : unit.Alike options other unit') (scope : ScopeId) (symbol : Symbol)
    (id : SymbolId) :
    (unit.withName options scope symbol id).Alike options other
      (unit'.withName other scope symbol id) := by
  have hfound : ((unit'.scope? scope).bind fun s => s.table.symbol? symbol.name) =
      (unit.scope? scope).bind fun s => s.table.symbol? symbol.name := by
    rw [h.rest]
    rfl
  cases hf : (unit.scope? scope).bind fun s => s.table.symbol? symbol.name with
  | none =>
    rw [withName_new hf, withName_new (hfound.trans hf)]
    constructor
    · rw [h.rest]
    · exact h.diagnostics
  | some existing =>
    have hsame : unit'.duplicate symbol existing = unit.duplicate symbol existing := by
      rw [h.rest]
      rfl
    rw [withName_known hf, withName_known (hfound.trans hf), hsame]
    constructor
    · have hrest := h.rest
      generalize unit'.diagnostics = diagnostics at hrest ⊢
      subst hrest
      split <;> split <;> rfl
    · intro he
      rw [he]
      split
      · exact congrArg (Array.push · _) (h.diagnostics he)
      · exact h.diagnostics he

theorem withDeclared (h : unit.Alike options other unit') (scope : Option ScopeId) (declaring : Link)
    (symbol : Symbol) :
    (unit.withDeclared options scope declaring symbol).Alike options other
      (unit'.withDeclared other scope declaring symbol) := by
  have hadded := h.withSymbol declaring symbol
  have hsize : unit'.symbols.size = unit.symbols.size := congrArg Array.size h.symbols_eq
  cases scope with
  | none => exact hadded
  | some id =>
    unfold BoundUnit.withDeclared
    rw [hsize]
    exact hadded.withName id symbol unit.symbols.size

end Alike

theorem Within.withScope (h : unit.Within limit) (kind : ScopeKind) (node : NodeId)
    {parent : Option ScopeId} (hd : unit.depthInside parent ≤ limit) :
    (unit.withScope kind node parent).Within limit := by
  intro id scope hs
  rw [scope?_withScope] at hs
  split at hs
  · cases hs
    exact hd
  · exact h _ _ hs

theorem Within.withDeclared (h : unit.Within limit) (options : BindOptions) (scope : Option ScopeId)
    (declaring : Link) (symbol : Symbol) :
    (unit.withDeclared options scope declaring symbol).Within limit := by
  intro id found hs
  obtain ⟨table, ho⟩ := exists_of_withDeclared hs
  have hdepth := h _ _ ho
  exact hdepth

/-- A scope that is opened too deep is the first one. -/
theorem Within.passes (h : unit.Within limit) (kind : ScopeKind) (node : NodeId)
    {parent : Option ScopeId} (hd : limit < unit.depthInside parent) :
    (unit.withScope kind node parent).Passes limit node := by
  refine ⟨unit.scopes.size, _, (unit.scope?_withScope kind node parent _).trans (if_pos rfl), rfl, hd, ?_⟩
  intro earlier hlt found hf
  rw [scope?_withScope, if_neg (Nat.ne_of_lt hlt)] at hf
  exact h _ _ hf

/-- The scopes that are there stay as they are. -/
theorem Passes.extends {node : NodeId} (h : unit.Passes limit node) (he : unit.Extends next) :
    next.Passes limit node := by
  obtain ⟨id, scope, hs, hn, hd, hearlier⟩ := h
  obtain ⟨table, hs'⟩ := he.scopes hs
  refine ⟨id, _, hs', hn, hd, fun earlier hlt found hf => ?_⟩
  have hsize : earlier < unit.scopes.size :=
    Nat.lt_trans hlt (Array.getElem?_eq_some_iff.1 hs).1
  have ho : unit.scope? earlier = some unit.scopes[earlier] := Array.getElem?_eq_getElem hsize
  obtain ⟨table', ho'⟩ := he.scopes ho
  obtain rfl := Option.some.inj (hf.symm.trans ho')
  have hdepth := hearlier earlier hlt _ ho
  exact hdepth

theorem Passes.not_within {node : NodeId} (h : unit.Passes limit node) : ¬unit.Within limit := by
  rintro hw
  obtain ⟨id, scope, hs, -, hd, -⟩ := h
  exact absurd (hw _ _ hs) (Nat.not_le.2 hd)

end BoundUnit

/-! ## Computations under two settings -/

namespace Binder

/-- How a computation ends under the second setting where it leads to a unit under the first: with a
unit alike, or at the first scope of that unit that is too deep. -/
inductive Ends₂ {α : Type} (options other : BindOptions) (a : α) (next : BoundUnit) :
    Except BindError (α × BoundUnit) → Prop
  | ok {next' : BoundUnit} : next.Within other.maxScopeDepth → next.Alike options other next' →
    Ends₂ options other a next (.ok (a, next'))
  | tooDeep {node : NodeId} : next.Passes other.maxScopeDepth node →
    Ends₂ options other a next (.error (.tooDeep node other.maxScopeDepth))

/-- Where a computation ends well under the first setting, the unit has grown, the result has a
property, and the second computation follows. -/
structure Follows {α : Type} (options other : BindOptions) (x y : Binder α) (P : α → Prop) : Prop where
  grows : ∀ {unit next : BoundUnit} {a : α}, x unit = .ok (a, next) → P a ∧ unit.Extends next
  ends : ∀ {unit unit' next : BoundUnit} {a : α}, unit.Alike options other unit' →
    unit.Within other.maxScopeDepth → x unit = .ok (a, next) → Ends₂ options other a next (y unit')

namespace Follows

variable {options other : BindOptions} {tree : Tree} {α β : Type} {x y : Binder α} {P Q : α → Prop}

/-! ### Sequences -/

theorem ret {a : α} (h : P a) : Follows options other (pure a) (pure a) P := by
  constructor
  · rintro unit next b hb
    obtain ⟨rfl, rfl⟩ := Prod.mk.inj (Except.ok.inj hb)
    exact ⟨h, .refl unit⟩
  · rintro unit unit' next b halike hwithin hb
    obtain ⟨rfl, rfl⟩ := Prod.mk.inj (Except.ok.inj hb)
    exact .ok hwithin halike

theorem exists_of_bind_ok {f : α → Binder β} {unit last : BoundUnit} {b : β}
    (h : (x >>= f) unit = .ok (b, last)) :
    ∃ a next, x unit = .ok (a, next) ∧ f a next = .ok (b, last) := by
  change (x unit >>= fun result => f result.1 result.2) = _ at h
  cases hr : x unit with
  | error error =>
    rw [hr] at h
    cases h
  | ok result =>
    rw [hr] at h
    exact ⟨result.1, result.2, rfl, h⟩

theorem seq {f g : α → Binder β} {R : β → Prop} (hx : Follows options other x y P)
    (hf : ∀ a, P a → Follows options other (f a) (g a) R) :
    Follows options other (x >>= f) (y >>= g) R := by
  constructor
  · intro unit last b hb
    obtain ⟨a, next, ha, hb⟩ := exists_of_bind_ok hb
    obtain ⟨hp, hgrows⟩ := hx.grows ha
    obtain ⟨hr, hgrows'⟩ := (hf a hp).grows hb
    exact ⟨hr, hgrows.trans hgrows'⟩
  · intro unit unit' last b halike hwithin hb
    obtain ⟨a, next, ha, hb⟩ := exists_of_bind_ok hb
    obtain ⟨hp, -⟩ := hx.grows ha
    have hends := hx.ends halike hwithin ha
    generalize hy : y unit' = ended at hends
    cases hends with
    | ok hwithin' halike' =>
      rw [bind_ok hy]
      exact (hf a hp).ends halike' hwithin' hb
    | tooDeep hpasses =>
      -- the first walk goes on, and the scope stays the first that is too deep
      obtain ⟨-, hgrows⟩ := (hf a hp).grows hb
      rw [bind_error hy]
      exact .tooDeep (hpasses.extends hgrows)

theorem malformed (node : Link) (reason : Malformation) :
    Follows options other (Binder.malformed node reason) y P :=
  ⟨fun h => absurd h nofun, fun _ _ h => absurd h nofun⟩

/-- Nothing follows a malformed tree. -/
theorem stop {f : α → Binder β} {z : Binder β} {R : β → Prop} (node : Link) (reason : Malformation) :
    Follows options other (Binder.malformed node reason >>= f) z R :=
  ⟨fun h => absurd h nofun, fun _ _ h => absurd h nofun⟩

theorem ite {c : Prop} [Decidable c] {x' y' : Binder α} (hx : c → Follows options other x y P)
    (hy : ¬c → Follows options other x' y' P) :
    Follows options other (if c then x else x') (if c then y else y') P := by
  by_cases hc : c
  · rw [if_pos hc, if_pos hc]
    exact hx hc
  · rw [if_neg hc, if_neg hc]
    exact hy hc

theorem forM {ι : Type} {f g : ι → Binder Unit} {items : List ι}
    (h : ∀ item ∈ items, Follows options other (f item) (g item) fun _ => True) :
    Follows options other (items.forM f) (items.forM g) fun _ => True := by
  induction items with
  | nil => exact ret trivial
  | cons item items ih =>
    exact seq (h item (.head _)) fun _ _ => ih fun later hl => h later (.tail _ hl)

/-! ### Steps -/

theorem openScope (kind : ScopeKind) (node : NodeId) (parent : Option ScopeId) :
    Follows options other (Binder.openScope options kind node parent)
      (Binder.openScope other kind node parent) fun _ => True := by
  have opened {unit next : BoundUnit} {scope : ScopeId}
      (h : Binder.openScope options kind node parent unit = .ok (scope, next)) :
      scope = unit.scopes.size ∧ next = unit.withScope kind node parent := by
    by_cases hd : unit.depthInside parent ≤ options.maxScopeDepth
    · rw [openScope_ok hd] at h
      cases h
      exact ⟨rfl, rfl⟩
    · rw [openScope_error (Nat.lt_of_not_le hd)] at h
      cases h
  constructor
  · intro unit next scope h
    obtain ⟨rfl, rfl⟩ := opened h
    exact ⟨trivial, unit.extends_withScope kind node parent⟩
  · intro unit unit' next scope halike hwithin h
    obtain ⟨rfl, rfl⟩ := opened h
    by_cases hd : unit.depthInside parent ≤ other.maxScopeDepth
    · rw [openScope_ok (halike.depthInside_eq parent ▸ hd)]
      rw [halike.scopes_eq]
      exact .ok (hwithin.withScope kind node hd) (halike.withScope kind node parent)
    · have hlt := Nat.lt_of_not_le hd
      rw [openScope_error (halike.depthInside_eq parent ▸ hlt)]
      exact .tooDeep (hwithin.passes kind node hlt)

theorem declare (declaration : Declaration) (declaring name : Link) :
    Follows options other (Binder.declare options tree declaration declaring name)
      (Binder.declare other tree declaration declaring name) fun _ => True := by
  unfold Binder.declare
  cases declaration.symbol? tree name with
  | none => exact ret trivial
  | some symbol =>
    constructor
    · intro unit next _ h
      obtain ⟨-, rfl⟩ := Prod.mk.inj (Except.ok.inj h)
      exact ⟨trivial, unit.extends_withDeclared options _ _ _⟩
    · intro unit unit' next _ halike hwithin h
      obtain ⟨-, rfl⟩ := Prod.mk.inj (Except.ok.inj h)
      exact .ok (hwithin.withDeclared options _ _ _) (halike.withDeclared _ _ _)

theorem recordScope (node : NodeId) (scope : Option ScopeId) :
    Follows options other (Binder.recordScope node scope) (Binder.recordScope node scope)
      fun _ => True := by
  constructor
  · intro unit next _ h
    obtain ⟨-, rfl⟩ := Prod.mk.inj (Except.ok.inj h)
    exact ⟨trivial, unit.extends_withNode node scope⟩
  · intro unit unit' next _ halike hwithin h
    obtain ⟨-, rfl⟩ := Prod.mk.inj (Except.ok.inj h)
    refine .ok ?_ (halike.withNode node scope)
    cases scope <;> exact hwithin

/-! ### Declarations -/

variable {context : Context} {scope : ScopeId}

theorem parameterAt (link : Link) :
    Follows options other (Binder.parameterAt tree link) (Binder.parameterAt tree link)
      fun _ => True := by
  unfold Binder.parameterAt
  split
  · exact ret trivial
  · exact malformed _ _

theorem declaratorAt (link : Link) :
    Follows options other (Binder.declaratorAt tree link) (Binder.declaratorAt tree link)
      fun _ => True := by
  unfold Binder.declaratorAt
  split
  · exact ret trivial
  · exact malformed _ _

theorem declareParameter (kind : SymbolKind) (owner : NodeId) (link : Link) :
    Follows options other (Binder.declareParameter options tree scope kind owner link)
      (Binder.declareParameter other tree scope kind owner link) fun _ => True :=
  seq (parameterAt link) fun _ _ => declare _ _ _

theorem declareComponentParameter (owner : NodeId) (link : Link) :
    Follows options other (Binder.declareComponentParameter options tree scope owner link)
      (Binder.declareComponentParameter other tree scope owner link) fun _ => True :=
  seq (parameterAt link) fun _ _ => declare _ _ _

theorem declareField (set : Modifiers) (link : Link) :
    Follows options other (Binder.declareField options tree context set link)
      (Binder.declareField other tree context set link) fun _ => True :=
  seq (declaratorAt link) fun _ _ => declare _ _ _

theorem declareLocal (set : Modifiers) (link : Link) :
    Follows options other (Binder.declareLocal options tree context set link)
      (Binder.declareLocal other tree context set link) fun _ => True :=
  seq (declaratorAt link) fun _ _ => declare _ _ _

theorem declareConstant (owner : NodeId) (link : Link) :
    Follows options other (Binder.declareConstant options tree scope owner link)
      (Binder.declareConstant other tree scope owner link) fun _ => True := by
  unfold Binder.declareConstant
  cases tree.payloadAt? link with
  | none => exact malformed _ _
  | some payload =>
    cases payload
    case enumConstant => exact declare _ _ _
    all_goals exact malformed _ _

theorem declareResource (owner link : Link) :
    Follows options other (Binder.declareResource options tree scope owner link)
      (Binder.declareResource other tree scope owner link) fun _ => True := by
  unfold Binder.declareResource
  cases tree.at? link with
  | none => exact malformed _ _
  | some node =>
    obtain ⟨kind, start, stop, parent, payload⟩ := node
    cases payload
    case resource => exact ite (fun _ => ret trivial) fun _ => declare _ _ _
    all_goals exact malformed _ _

end Follows

/-! ## Constructs -/

theorem map_fst_pendingChildren (context : Context) (node : Node) :
    (pendingChildren context node).map Prod.fst = node.children := by
  rw [pendingChildren, List.map_map]
  exact List.map_id _

theorem map_fst_pending (context : Context) (links : List Link) :
    (pending context links).map Prod.fst = links.filterMap id := by
  simp [pending, List.map_filterMap, Function.comp_def]

/-- Links whose nodes are visited in different contexts give their nodes in order. -/
theorem map_fst_pending_append {links more : List Link} {children : Pending} {context : Context}
    (h : children.map Prod.fst = more.filterMap id) :
    (pending context links ++ children).map Prod.fst = (links ++ more).filterMap id := by
  rw [List.map_append, map_fst_pending, h, List.filterMap_append]

/-- The nodes that a construct hands on are its children in the order of the source. -/
def Hands (node : Node) (children : Pending) : Prop := children.map Prod.fst = node.children

namespace Follows

variable (options other : BindOptions) (tree : Tree) (id : NodeId) (node : Node) (context : Context)

theorem visitType : Follows options other (Binder.visitType options tree id node context)
    (Binder.visitType other tree id node context) (Hands node) := by
  obtain ⟨kind, start, stop, parent, payload⟩ := node
  unfold Binder.visitType
  cases payload
  case typeDeclaration =>
    refine seq (openScope _ _ _) fun scope _ => ?_
    refine seq (forM fun link _ => declareParameter _ _ link) fun _ _ => ?_
    refine seq (forM fun link _ => declareConstant _ link) fun _ _ => ?_
    exact ret (map_fst_pendingChildren _ _)
  all_goals exact malformed _ _

theorem visitConstant : Follows options other (Binder.visitConstant options id node context)
    (Binder.visitConstant other id node context) (Hands node) := by
  obtain ⟨kind, start, stop, parent, payload⟩ := node
  unfold Binder.visitConstant
  cases payload
  case enumConstant name arguments body =>
    cases body with
    | none =>
      refine ret ((map_fst_pending context (name :: arguments)).trans ?_)
      exact congrArg _ (List.append_nil _).symm
    | some members =>
      refine seq (openScope _ _ _) fun scope _ => ret ?_
      exact map_fst_pending_append (map_fst_pending _ members)
  all_goals exact malformed _ _

theorem visitField : Follows options other (Binder.visitField options tree id node context)
    (Binder.visitField other tree id node context) (Hands node) := by
  obtain ⟨kind, start, stop, parent, payload⟩ := node
  unfold Binder.visitField
  cases payload
  case «variables» =>
    refine ite (fun _ => .stop _ _) fun _ => ?_
    refine seq (forM fun link _ => declareField _ link) fun _ _ => ?_
    exact ret (map_fst_pendingChildren _ _)
  all_goals exact malformed _ _

theorem visitMethod : Follows options other (Binder.visitMethod options tree id node context)
    (Binder.visitMethod other tree id node context) (Hands node) := by
  obtain ⟨kind, start, stop, parent, payload⟩ := node
  unfold Binder.visitMethod
  cases payload
  case method =>
    refine seq (openScope _ _ _) fun scope _ => ?_
    refine seq (forM fun link _ => declareParameter _ _ link) fun _ _ => ?_
    exact ret (map_fst_pendingChildren _ _)
  all_goals exact malformed _ _

theorem visitCompactConstructor :
    Follows options other (Binder.visitCompactConstructor options tree id node context)
      (Binder.visitCompactConstructor other tree id node context) (Hands node) := by
  have body (components : List Link) : Follows options other
      (Binder.openScope options .compactConstructorBody id context.scope >>= fun scope =>
        components.forM (Binder.declareComponentParameter options tree scope id) >>= fun _ =>
          pure (pendingChildren (.inside scope id) node))
      (Binder.openScope other .compactConstructorBody id context.scope >>= fun scope =>
        components.forM (Binder.declareComponentParameter other tree scope id) >>= fun _ =>
          pure (pendingChildren (.inside scope id) node)) (Hands node) := by
    refine seq (openScope _ _ _) fun scope _ => ?_
    refine seq (forM fun link _ => declareComponentParameter _ link) fun _ _ => ?_
    exact ret (map_fst_pendingChildren _ _)
  unfold Binder.visitCompactConstructor
  cases tree.at? node.parent with
  | none => exact malformed _ _
  | some above =>
    obtain ⟨kind, start, stop, parent, payload⟩ := above
    cases kind
    case recordDeclaration =>
      cases payload
      case typeDeclaration => exact body _
      all_goals exact malformed _ _
    all_goals exact malformed _ _

theorem visitLocals : Follows options other (Binder.visitLocals options tree id node context)
    (Binder.visitLocals other tree id node context) (Hands node) := by
  obtain ⟨kind, start, stop, parent, payload⟩ := node
  unfold Binder.visitLocals
  cases payload
  case «variables» =>
    refine seq (forM fun link _ => declareLocal _ link) fun _ _ => ?_
    exact ret (map_fst_pendingChildren _ _)
  all_goals exact malformed _ _

theorem visitForEach : Follows options other (Binder.visitForEach options tree id node context)
    (Binder.visitForEach other tree id node context) (Hands node) := by
  obtain ⟨kind, start, stop, parent, payload⟩ := node
  unfold Binder.visitForEach
  cases payload
  case forEach element iterable statement =>
    refine seq (openScope _ _ _) fun scope _ => ?_
    have hands : Hands ⟨kind, start, stop, parent, .forEach element iterable statement⟩
        (Binder.pending (context.inScope scope) [element] ++ Binder.pending context [iterable] ++
          Binder.pending (context.inScope scope) [statement]) := by
      rw [List.append_assoc]
      exact map_fst_pending_append (map_fst_pending_append (map_fst_pending _ _))
    by_cases he : element.isSome
    · rw [if_pos he, if_pos he]
      exact seq (declareParameter _ _ _) fun _ _ => ret hands
    · rw [if_neg he, if_neg he]
      exact ret hands
  all_goals exact malformed _ _

theorem visitTry : Follows options other (Binder.visitTry options tree id node context)
    (Binder.visitTry other tree id node context) (Hands node) := by
  obtain ⟨kind, start, stop, parent, payload⟩ := node
  unfold Binder.visitTry
  cases payload
  case tryCatch list tryBlock clauses finallyBlock =>
    cases list with
    | none => exact ret (map_fst_pending _ _)
    | some list =>
      dsimp only
      cases tree.payloadAt? (some list) with
      | none => exact malformed _ _
      | some payload =>
        cases payload
        case resourceList resources =>
          refine ite (fun _ => .stop _ _) fun _ => ?_
          refine seq (openScope _ _ _) fun scope _ => ?_
          refine seq (forM fun link _ => declareResource _ link) fun _ _ => ret ?_
          exact map_fst_pending_append (map_fst_pending _ _)
        all_goals exact malformed _ _
  all_goals exact malformed _ _

theorem visitResourceList : Follows options other (Binder.visitResourceList id node context)
    (Binder.visitResourceList id node context) (Hands node) := by
  obtain ⟨kind, start, stop, parent, payload⟩ := node
  unfold Binder.visitResourceList
  cases payload
  case resourceList =>
    exact ite (fun _ => .stop _ _) fun _ => ret (map_fst_pendingChildren _ _)
  all_goals exact malformed _ _

theorem visitCatch : Follows options other (Binder.visitCatch options tree id node context)
    (Binder.visitCatch other tree id node context) (Hands node) := by
  obtain ⟨kind, start, stop, parent, payload⟩ := node
  unfold Binder.visitCatch
  cases payload
  case catchClause caught body =>
    refine seq (openScope _ _ _) fun scope _ => ?_
    by_cases hc : caught.isSome
    · rw [if_pos hc, if_pos hc]
      exact seq (declareParameter _ _ _) fun _ _ => ret (map_fst_pendingChildren _ _)
    · rw [if_neg hc, if_neg hc]
      exact ret (map_fst_pendingChildren _ _)
  all_goals exact malformed _ _

theorem visitSwitch : Follows options other (Binder.visitSwitch id node context)
    (Binder.visitSwitch id node context) (Hands node) := by
  obtain ⟨kind, start, stop, parent, payload⟩ := node
  unfold Binder.visitSwitch
  cases payload
  case switch =>
    exact ite (fun _ => .stop _ _) fun _ => ret (map_fst_pendingChildren _ _)
  all_goals exact malformed _ _

theorem visitLambda : Follows options other (Binder.visitLambda options tree id node context)
    (Binder.visitLambda other tree id node context) (Hands node) := by
  obtain ⟨kind, start, stop, parent, payload⟩ := node
  unfold Binder.visitLambda
  cases payload
  case lambda =>
    refine seq (openScope _ _ _) fun scope _ => ?_
    refine seq (forM fun link _ => declareParameter _ _ link) fun _ _ => ?_
    exact ret (map_fst_pendingChildren _ _)
  all_goals exact malformed _ _

theorem visitCreation : Follows options other (Binder.visitCreation options id node context)
    (Binder.visitCreation other id node context) (Hands node) := by
  obtain ⟨kind, start, stop, parent, payload⟩ := node
  unfold Binder.visitCreation
  cases payload
  case objectCreation outer type arguments body =>
    cases body with
    | none =>
      refine ret ((map_fst_pending context (outer :: type :: arguments)).trans ?_)
      exact congrArg _ (List.append_nil _).symm
    | some members =>
      refine seq (openScope _ _ _) fun scope _ => ret ?_
      exact map_fst_pending_append (map_fst_pending _ members)
  all_goals exact malformed _ _

theorem visitRegion (kind : ScopeKind) :
    Follows options other (Binder.visitRegion options kind id node context)
      (Binder.visitRegion other kind id node context) (Hands node) :=
  seq (openScope kind id _) fun _ _ => ret (map_fst_pendingChildren _ _)

/-- Whatever the node, the second visit follows the first, and the children are handed on in the order
of the source. -/
theorem visitNode : Follows options other (Binder.visitNode options tree id node context)
    (Binder.visitNode other tree id node context) (Hands node) := by
  unfold Binder.visitNode
  cases hk : node.kind
  case classDeclaration | interfaceDeclaration | enumDeclaration | recordDeclaration
    | annotationTypeDeclaration => exact visitType _ _ _ _ _ _
  case enumConstant => exact visitConstant _ _ _ _ _
  case fieldDeclaration => exact visitField _ _ _ _ _ _
  case methodDeclaration | constructorDeclaration => exact visitMethod _ _ _ _ _ _
  case compactConstructorDeclaration => exact visitCompactConstructor _ _ _ _ _ _
  case localVariableStatement => exact visitLocals _ _ _ _ _ _
  case block | forStatement | switchBody => exact visitRegion _ _ _ _ _ _
  case forEachStatement => exact visitForEach _ _ _ _ _ _
  case tryStatement => exact visitTry _ _ _ _ _ _
  case resourceList => exact visitResourceList _ _ _ _ _
  case catchClause => exact visitCatch _ _ _ _ _ _
  case switchStatement | switchExpression => exact visitSwitch _ _ _ _ _
  case lambda => exact visitLambda _ _ _ _ _ _
  case objectCreation => exact visitCreation _ _ _ _ _
  all_goals exact ret (map_fst_pendingChildren _ _)

end Follows

/-! ## Walks -/

/-- The nodes that are handed on are among the children in the store. -/
theorem Hands.mem {tree : Tree} {id : NodeId} {node : Node} {children : Pending}
    (h : Hands node children) (hn : tree.node? id = some node) {entry : NodeId × Context}
    (he : entry ∈ children) : entry.1 ∈ tree.children id := by
  rw [Tree.children_eq hn, ← h]
  exact List.mem_map_of_mem he

/-- A walk with enough steps follows another with enough steps. -/
theorem visit_follows {options other : BindOptions} {tree : Tree} {id : NodeId} {context : Context}
    {depth steps steps' : Nat} (h : tree.Shallow depth id) (hs : depth < steps) (hs' : depth < steps') :
    Follows options other (visit options tree steps id context) (visit other tree steps' id context)
      fun _ => True := by
  induction depth generalizing id context steps steps' with
  | zero =>
    obtain ⟨steps, rfl⟩ := Nat.exists_eq_succ_of_ne_zero (Nat.ne_of_gt hs)
    obtain ⟨steps', rfl⟩ := Nat.exists_eq_succ_of_ne_zero (Nat.ne_of_gt hs')
    rw [visit, visit, Tree.node?_eq_none.2 h]
    exact .malformed _ _
  | succ depth ih =>
    obtain ⟨steps, rfl⟩ := Nat.exists_eq_succ_of_ne_zero (Nat.ne_of_gt (Nat.zero_lt_of_lt hs))
    obtain ⟨steps', rfl⟩ := Nat.exists_eq_succ_of_ne_zero (Nat.ne_of_gt (Nat.zero_lt_of_lt hs'))
    rw [visit, visit]
    cases hn : tree.node? id with
    | none => exact .malformed _ _
    | some node =>
      refine .seq (.recordScope id context.scope) fun _ _ => ?_
      refine .seq (.visitNode options other tree id node context) fun children hc => .forM fun entry he => ?_
      exact ih (h entry.1 (hc.mem hn he)) (Nat.lt_of_succ_lt_succ hs) (Nat.lt_of_succ_lt_succ hs')

end Binder

/-! ## Units that are found -/

section

variable {tree : Tree} {root : NodeId} {file : String} {options other : BindOptions} {bound : BoundUnit}

/-- A unit is found by a walk from the root, in as many steps as there may be. -/
theorem Tree.visit_of_bind (h : tree.bind root file options = .ok bound) :
    tree.kindAt? root = some .compilationUnit ∧
      Binder.visit options tree ((options.maxScopeDepth + 2) * (tree.size + 1)) root .top
        (.empty file root) = .ok ((), bound) := by
  unfold Tree.bind at h
  split at h
  · rename_i id _ hid hkind
    obtain rfl := Option.some.inj hid
    refine ⟨hkind, ?_⟩
    change (Binder.visit options tree _ root .top (.empty file root)).map (·.2) = _ at h
    cases hv : Binder.visit options tree ((options.maxScopeDepth + 2) * (tree.size + 1)) root .top
        (.empty file root) with
    | error => rw [hv] at h; cases h
    | ok result => rw [hv] at h; cases h; rfl
  · cases h

/-- The steps that are allowed are more than the nodes. -/
theorem Tree.size_lt_steps (tree : Tree) (options : BindOptions) :
    tree.size < (options.maxScopeDepth + 2) * (tree.size + 1) :=
  Nat.lt_of_lt_of_le (Nat.lt_succ_self _) (Nat.le_mul_of_pos_left _ (Nat.succ_pos _))

/-- The walk over a tree follows itself under any other setting. -/
theorem Tree.Branching.visit_follows (hb : tree.Branching root) (options other : BindOptions)
    (context : Context) :
    Binder.Follows options other
      (Binder.visit options tree ((options.maxScopeDepth + 2) * (tree.size + 1)) root context)
      (Binder.visit other tree ((other.maxScopeDepth + 2) * (tree.size + 1)) root context)
      fun _ => True :=
  Binder.visit_follows hb.shallow (tree.size_lt_steps options) (tree.size_lt_steps other)

/-- Where a unit is found for a tree under one setting, another finds one alike or is stopped by the
first scope that is too deep for it. -/
theorem Tree.Branching.bind_follows (hb : tree.Branching root)
    (h : tree.bind root file options = .ok bound) (other : BindOptions) :
    bound.Within other.maxScopeDepth ∧
        (∃ bound', tree.bind root file other = .ok bound' ∧ bound.Alike options other bound') ∨
      ∃ node, bound.Passes other.maxScopeDepth node ∧
        tree.bind root file other = .error (.tooDeep node other.maxScopeDepth) := by
  obtain ⟨hkind, hvisit⟩ := Tree.visit_of_bind h
  have hfollows := hb.visit_follows options other .top
  have hends := hfollows.ends (.refl options other (.empty file root)) (fun _ _ hs => absurd hs nofun) hvisit
  have hother : tree.bind root file other =
      (Binder.visit other tree ((other.maxScopeDepth + 2) * (tree.size + 1)) root .top
        (.empty file root)).map (·.2) := by
    simp only [Tree.bind, hkind]
    rfl
  rw [hother]
  generalize Binder.visit other tree _ root .top (.empty file root) = ended at hends
  cases hends with
  | ok hwithin halike => exact .inl ⟨hwithin, _, rfl, halike⟩
  | tooDeep hpasses => exact .inr ⟨_, hpasses, rfl⟩

end

end JavaNames
