/-
What a reader does does not depend on what has been read in front. `Shifts` says that a reader in a
state behind another one does what it does from the beginning: it takes the same tokens, adds the same
nodes and diagnostics behind those that are there, and gives the same result with shifted links. There
is one rule for each form of reader and each primitive; a derivation for every reader of the grammar is
made from them.
-/
import JavaNames.Proofs.Shifting.Tree
import JavaNames.Proofs.Progress.Forward

namespace JavaNames.Grammar

/-! ## States behind a state -/

/-- A state with what has been read, noted and reported in front of it. -/
def State.behind (s front : State) : State where
  tokens := s.tokens
  consumed := front.consumed + s.consumed
  lastStop := s.lastStop
  tree := front.tree.append s.tree
  diagnostics := front.diagnostics ++ s.diagnostics
  depth := s.depth
  tooDeep := s.tooDeep

/-- A link as it is behind a state. -/
def State.link (front : State) : Link → Link := Link.shift front.tree.size

@[simp] theorem State.link_none (front : State) : front.link none = none := rfl

@[simp] theorem State.isSome_link (front : State) (link : Link) :
    (front.link link).isSome = link.isSome :=
  Link.isSome_shift _ link

@[simp] theorem State.isNone_link (front : State) (link : Link) :
    (front.link link).isNone = link.isNone :=
  Link.isNone_shift _ link

/-- The next node gets its number behind the nodes that are there. -/
theorem State.size_behind (s front : State) :
    some (s.behind front).tree.size = front.link (some s.tree.size) :=
  congrArg some (Tree.size_append _ _)

theorem State.advance_behind (s front : State) :
    (s.behind front).advance = s.advance.behind front := by
  obtain ⟨tokens, consumed, lastStop, tree, diagnostics, depth, tooDeep⟩ := s
  cases tokens <;> rfl

theorem State.add_behind (s front : State) (kind : NodeKind) (start stop : Nat)
    (payload : Payload) :
    (s.behind front).add kind start stop (payload.relink front.link) =
      (s.add kind start stop payload).behind front := by
  simp only [behind, add, State.link, Tree.append_add]

theorem State.replace_behind (s front : State) (id : NodeId) (kind : NodeKind)
    (payload : Payload) :
    (s.behind front).replace (front.tree.size + id) kind (payload.relink front.link) =
      (s.replace id kind payload).behind front := by
  simp only [behind, replace, State.link, Tree.append_replace]

/-! ## Readers that shift -/

/-- A reader behind a state does what another does from the beginning, and gives what `f` makes of the
result of that one. -/
def Shifts {α β : Type} (front : State) (f : α → β) (p : Parse α) (p' : Parse β) : Prop :=
  ∀ (input : Input) (s : State), (p'.run input).run (s.behind front) =
    (f ((p.run input).run s).1, ((p.run input).run s).2.behind front)

namespace Shifts

variable {α β γ δ : Type} {front : State} {f : α → β} {g : γ → δ}

/-! ## Sequences and branches -/

theorem ret {a : α} {b : β} (h : b = f a) : Shifts front f (pure a) (pure b) := by
  subst h
  exact fun _ _ => rfl

theorem seq {p : Parse α} {p' : Parse β} {k : α → Parse γ} {k' : β → Parse δ}
    (hp : Shifts front f p p') (hk : ∀ a, Shifts front g (k a) (k' (f a))) :
    Shifts front g (p >>= k) (p' >>= k') := by
  intro input s
  rw [ReaderT.run_bind, StateT.run_bind, hp input s]
  exact hk _ input _

/-- A reader that gives the same value at both places, and then another. -/
theorem skip {p p' : Parse α} {k : α → Parse γ} {k' : α → Parse δ} (hp : Shifts front id p p')
    (hk : ∀ a, Shifts front g (k a) (k' a)) : Shifts front g (p >>= k) (p' >>= k') :=
  seq hp hk

/-- A value that is passed on. -/
theorem now {a : α} {b : β} {k : α → Parse γ} {k' : β → Parse δ}
    (h : Shifts front g (k a) (k' b)) : Shifts front g (pure a >>= k) (pure b >>= k') :=
  fun input s => h input s

theorem ite {c c' : Prop} [Decidable c] [Decidable c'] {p q : Parse α} {p' q' : Parse β}
    (hc : c' ↔ c) (ht : c → Shifts front f p p') (he : ¬c → Shifts front f q q') :
    Shifts front f (if c then p else q) (if c' then p' else q') := by
  by_cases h : c
  · rw [if_pos h, if_pos (hc.2 h)]
    exact ht h
  · rw [if_neg h, if_neg fun h' => h (hc.1 h')]
    exact he h

/-- Two readers, one of which is chosen, and what follows either of them. -/
theorem choose {c : Prop} [Decidable c] {p q : Parse α} {p' q' : Parse β} {k : α → Parse γ}
    {k' : β → Parse δ} (ht : Shifts front f p p') (he : Shifts front f q q')
    (hk : ∀ a, Shifts front g (k a) (k' (f a))) :
    Shifts front g (if c then p >>= k else q >>= k) (if c then p' >>= k' else q' >>= k') :=
  ite Iff.rfl (fun _ => seq ht hk) fun _ => seq he hk

/-- A function of the tokens to come, which are the same at both places. -/
theorem look {h : List Token → α} {k : α → Parse γ} {k' : α → Parse δ}
    (hk : ∀ a, Shifts front g (k a) (k' a)) :
    Shifts front g (Parse.look h >>= k) (Parse.look h >>= k') :=
  fun input s => hk (h s.tokens) input s

/-! ## Primitives -/

theorem token : Shifts front id Parse.token Parse.token := fun _ _ => rfl

theorem offset : Shifts front id Parse.offset Parse.offset := fun _ _ => rfl

theorem position : Shifts front (front.consumed + ·) Parse.position Parse.position := fun _ _ => rfl

theorem aborted : Shifts front id Parse.aborted Parse.aborted := fun _ _ => rfl

theorem advance : Shifts front id Parse.advance Parse.advance := by
  intro input s
  have hrun (t : State) : (Parse.advance.run input).run t = ((), t.advance) := rfl
  rw [hrun, hrun, State.advance_behind]

theorem advanceBy (n : Nat) : Shifts front id (Parse.advanceBy n) (Parse.advanceBy n) := by
  induction n with
  | zero => exact ret rfl
  | succ n ih => exact skip advance fun _ => ih

theorem accept (kind : TokenKind) : Shifts front id (Parse.accept kind) (Parse.accept kind) :=
  look fun _ => ite Iff.rfl (fun _ => skip advance fun _ => ret rfl) fun _ => ret rfl

theorem report (rule : Rule) (start stop : Nat) (arguments : List String) :
    Shifts front id (Parse.report rule start stop arguments)
      (Parse.report rule start stop arguments) := by
  intro input s
  have hrun (t : State) : ((Parse.report rule start stop arguments).run input).run t =
    ((), t.report (.ofRule rule input.file start (max (stop - start) 1) arguments)) := rfl
  rw [hrun, hrun]
  simp [State.report, State.behind]

theorem unexpected : Shifts front id Parse.unexpected Parse.unexpected :=
  skip token fun _ => report _ _ _ _

theorem unsupported (token : Token) (what : String) :
    Shifts front id (Parse.unsupported token what) (Parse.unsupported token what) :=
  report _ _ _ _

theorem expect (kind : TokenKind) : Shifts front id (Parse.expect kind) (Parse.expect kind) := by
  refine skip (accept kind) fun _ => ite Iff.rfl (fun _ => ret rfl) fun _ => ?_
  exact skip token fun _ => skip (report _ _ _ _) fun _ => ret rfl

theorem require (kind : TokenKind) : Shifts front id (Parse.require kind) (Parse.require kind) :=
  skip (expect kind) fun _ => ret rfl

/-- A node that is added, with the links that its parts have at the place. -/
theorem finish {kind : NodeKind} {start : Nat} {payload payload' : Payload}
    (h : payload' = payload.relink front.link) :
    Shifts front front.link (Parse.finish kind start payload) (Parse.finish kind start payload') := by
  subst h
  intro input s
  have hrun (t : State) (payload : Payload) :
    ((Parse.finish kind start payload).run input).run t =
      (some t.tree.size, t.add kind start (max t.lastStop start) payload) := rfl
  rw [hrun, hrun, State.size_behind, State.add_behind]
  rfl

theorem word : Shifts front front.link Parse.word Parse.word := by
  refine skip token fun found => skip advance fun _ => ?_
  intro input s
  have hrun (t : State) : (((do return some (← Parse.addNode .identifier found.start found.stop
      (.name found.text)) : Parse Link).run input).run t) =
    (some t.tree.size, t.add .identifier found.start found.stop (.name found.text)) := rfl
  have hadd := s.add_behind front .identifier found.start found.stop (.name found.text)
  rw [hrun, hrun, State.size_behind, ← hadd]
  rfl

theorem identifier : Shifts front front.link Parse.identifier Parse.identifier :=
  look fun _ => ite Iff.rfl (fun _ => word) fun _ => skip (require _) fun _ => ret rfl

theorem typeNode (start : Nat) :
    Shifts front front.link (Parse.typeNode start) (Parse.typeNode start) := by
  intro input s
  have hrun (t : State) : ((Parse.typeNode start).run input).run t = (some t.tree.size,
    t.add .typeReference start t.lastStop
      (.typeReference (Text.spaced (Text.slice input.text start t.lastStop)))) := rfl
  have hadd := s.add_behind front .typeReference start s.lastStop
    (.typeReference (Text.spaced (Text.slice input.text start s.lastStop)))
  rw [hrun, hrun, State.size_behind, ← hadd]
  rfl

/-- The name of a node, which is the same at both places. -/
theorem nameAt (link : Link) :
    Shifts front id (Parse.nameAt link) (Parse.nameAt (front.link link)) := by
  intro input s
  have hrun (t : State) (link : Link) :
    ((Parse.nameAt link).run input).run t = (t.tree.nameOf? link, t) := rfl
  rw [hrun, hrun]
  exact congrArg (Prod.mk · _) (Tree.nameOf?_append _ _ link)

theorem nodeAt (link : Link) : Shifts front (Option.map (Node.shift front.tree.size))
    (Parse.nodeAt link) (Parse.nodeAt (front.link link)) := by
  intro input s
  have hrun (t : State) (link : Link) :
    ((Parse.nodeAt link).run input).run t = (t.tree.at? link, t) := rfl
  rw [hrun, hrun]
  exact congrArg (Prod.mk · _) (Tree.at?_append _ _ link)

theorem replaceNode (node : NodeId) (kind : NodeKind) {payload payload' : Payload}
    (h : payload' = payload.relink front.link) :
    Shifts front id (Parse.replaceNode node kind payload)
      (Parse.replaceNode (front.tree.size + node) kind payload') := by
  subst h
  intro input s
  have hrun (t : State) (node : NodeId) (payload : Payload) :
    ((Parse.replaceNode node kind payload).run input).run t = ((), t.replace node kind payload) := rfl
  rw [hrun, hrun, State.replace_behind]

/-! ## Nesting -/

theorem nested {p : Parse α} {p' : Parse β} (hp : Shifts front f p p') :
    Shifts front (Option.map f) (Parse.nested p) (Parse.nested p') := by
  intro input s
  have htooDeep : (s.behind front).tooDeep = s.tooDeep := rfl
  have hdepth : (s.behind front).depth = s.depth := rfl
  rw [Keeps.run_nested, Keeps.run_nested, htooDeep, hdepth]
  split
  · rfl
  · split
    · rfl
    · have hinside := hp input s.enter
      change (p'.run input).run (s.behind front).enter = _ at hinside
      rw [hinside]
      rfl

/-- A nested construct that gives one link. -/
theorem joined {p p' : Parse Link} (hp : Shifts front front.link p p') :
    Shifts front front.link (do return (← Parse.nested p).join)
      (do return (← Parse.nested p').join) := by
  refine seq (nested hp) fun result => ?_
  cases result <;> exact ret rfl

/-! ## Loops -/

theorem iterateAtMost {step : α → Parse (α × Bool)} {step' : β → Parse (β × Bool)}
    (h : ∀ a, Shifts front (Prod.map f id) (step a) (step' (f a))) (bound : Nat) (a : α) :
    Shifts front f (Parse.iterateAtMost step bound a) (Parse.iterateAtMost step' bound (f a)) := by
  induction bound generalizing a with
  | zero => exact ret rfl
  | succ bound ih =>
    refine seq (h a) fun x => ?_
    obtain ⟨next, more⟩ := x
    exact ite Iff.rfl (fun _ => ih next) fun _ => ret rfl

theorem iterate {step : α → Parse (α × Bool)} {step' : β → Parse (β × Bool)}
    (h : ∀ a, Shifts front (Prod.map f id) (step a) (step' (f a))) {a : α} {b : β} (hb : b = f a) :
    Shifts front f (Parse.iterate step a) (Parse.iterate step' b) := by
  subst hb
  exact fun input s => iterateAtMost h input.budget a input s

theorem repeatStep {step : Parse Bool} (h : Shifts front id step step) :
    Shifts front id (Parse.repeatStep step) (Parse.repeatStep step) :=
  iterate (f := id) (fun _ => skip h fun _ => ret rfl) rfl

/-- A list of links, each as it is at the place. -/
abbrev links (front : State) : List Link → List Link := List.map front.link

theorem collect {step : Parse (Link × Bool)}
    (h : Shifts front (Prod.map front.link id) step step) :
    Shifts front (links front) (Parse.collect step) (Parse.collect step) := by
  refine iterate (fun found => seq h fun x => ?_) rfl
  obtain ⟨link, more⟩ := x
  refine ret ?_
  cases link <;> simp [links]

end Shifts

end JavaNames.Grammar
