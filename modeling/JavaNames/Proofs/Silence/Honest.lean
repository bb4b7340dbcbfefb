/-
Readers that tell what they miss. `Honest` says of a reader what holds behind it if nothing has been
reported by then: nothing had been reported before, no node lacks a part, and something is known of the
result and the tokens that are left. A reader that reports something may leave anything behind.

What is known of parts that have been read is kept beside what is known of the tokens, since it goes on
to hold when tokens are read.
-/
import JavaNames.Proofs.Reading.Invariant
import JavaNames.Proofs.Silence.Missing

namespace JavaNames.Grammar

/-- Nothing has been reported, and the nesting has not passed the limit. -/
def State.Quiet (s : State) : Prop := s.diagnostics = #[] ∧ s.tooDeep = none

/-- The tokens left are the last ones of a source, and no node lacks a part. -/
structure State.Whole (source : List Token) (s : State) : Prop where
  tokens : s.tokens <:+ source
  nodes : s.tree.Whole (hasPlainTypes source)

theorem State.Whole.congr {source : List Token} {s s' : State} (h : s.Whole source)
    (ht : s'.tokens = s.tokens) (hn : s'.tree = s.tree) : s'.Whole source :=
  ⟨ht ▸ h.tokens, hn ▸ h.nodes⟩

theorem State.tokens_advance_eq_tail (s : State) : s.advance.tokens = s.tokens.tail := by
  unfold State.advance
  split <;> simp_all

/-- What holds of a reader of the tokens of a source when nothing has been reported behind it and its loops
may have a round for every token. -/
def Honest {α : Type} (source : List Token) (known : Prop) (P : List Token → Prop) (p : Parse α)
    (Q : α → List Token → Prop) : Prop :=
  ∀ (input : Input) (s : State), source.length < input.budget → ((p.run input).run s).2.Quiet →
    s.Quiet ∧ (known → s.Whole source → P s.tokens →
      ((p.run input).run s).2.Whole source ∧
        Q ((p.run input).run s).1 ((p.run input).run s).2.tokens)

/-- Nothing is known of the tokens. -/
abbrev anywhere : List Token → Prop := fun _ => True

/-- Nothing is known of the result or the tokens. -/
abbrev anything {α : Type} : α → List Token → Prop := fun _ => anywhere

/-- Where a token of a kind has been read. -/
def Behind (source : List Token) (kind : TokenKind) (P : List Token → Prop) (tokens : List Token) :
    Prop :=
  ∃ before, before <:+ source ∧ P before ∧ headKind before = kind ∧ tokens = before.tail

/-- There is a node, or a type has broken off. -/
def Sure (link : Link) (tokens : List Token) : Prop := link.isSome ∨ Stuck tokens

/-- There is a node, or types are not plain and one has broken off. -/
def Given (source : List Token) (link : Link) (tokens : List Token) : Prop :=
  (hasPlainTypes source → link.isSome) ∧ Sure link tokens

theorem Sure.isSome {link : Link} {tokens : List Token} (h : Sure link tokens)
    (hk : breaksOff (headKind tokens) = false) : link.isSome :=
  h.resolve_right fun hs => Bool.false_ne_true (hk.symm.trans hs.breaksOff)

theorem Given.of_isSome {source tokens : List Token} {link : Link} (h : link.isSome) :
    Given source link tokens :=
  ⟨fun _ => h, .inl h⟩

namespace Honest

variable {α β : Type} {source : List Token} {known : Prop} {P : List Token → Prop}
  {Q : α → List Token → Prop} {G : β → List Token → Prop}

/-! ## Sequences and branches -/

theorem ret {a : α} (h : known → ∀ ts, P ts → Q a ts) : Honest source known P (pure a) Q :=
  fun _ s _ hq => ⟨hq, fun hA hw hP => ⟨hw, h hA s.tokens hP⟩⟩

theorem done {a : α} : Honest source known P (pure a) anything := ret fun _ _ _ => trivial

/-- Behind a report. -/
theorem unreached {a : α} : Honest source known (fun _ => False) (pure a) Q := ret fun _ _ h => h.elim

theorem seq {p : Parse α} {k : α → Parse β} (hp : Honest source known P p Q)
    (hk : ∀ a, Honest source known (Q a) (k a) G) : Honest source known P (p >>= k) G := by
  intro input s hb hq
  rw [ReaderT.run_bind, StateT.run_bind] at hq ⊢
  obtain ⟨hq', hrest⟩ := hk _ input _ hb hq
  obtain ⟨hq'', hfirst⟩ := hp input s hb hq'
  refine ⟨hq'', fun hA hw hP => ?_⟩
  obtain ⟨hw', hQ⟩ := hfirst hA hw hP
  exact hrest hA hw' hQ

/-- A value that is passed on. -/
theorem now {a : α} {k : α → Parse β} (h : Honest source known P (k a) G) :
    Honest source known P (pure a >>= k) G :=
  h

theorem pre {R : List Token → Prop} {p : Parse α} (hp : Honest source known R p Q)
    (h : known → ∀ ts, P ts → R ts) : Honest source known P p Q := by
  intro input s hb hq
  obtain ⟨hq', hrest⟩ := hp input s hb hq
  exact ⟨hq', fun hA hw hP => hrest hA hw (h hA _ hP)⟩

theorem post {R : α → List Token → Prop} {p : Parse α} (hp : Honest source known P p Q)
    (h : known → ∀ a ts, Q a ts → R a ts) : Honest source known P p R := by
  intro input s hb hq
  obtain ⟨hq', hrest⟩ := hp input s hb hq
  refine ⟨hq', fun hA hw hP => ?_⟩
  obtain ⟨hw', hQ⟩ := hrest hA hw hP
  exact ⟨hw', h hA _ _ hQ⟩

theorem any {p : Parse α} (hp : Honest source known P p Q) : Honest source known P p anything :=
  hp.post fun _ _ _ _ => trivial

/-- A reader that needs to know nothing. -/
theorem anyhow {p : Parse α} (hp : Honest source True anywhere p Q) :
    Honest source known P p Q := by
  intro input s hb hq
  obtain ⟨hq', hrest⟩ := hp input s hb hq
  exact ⟨hq', fun _ hw _ => hrest trivial hw trivial⟩

/-- What the tokens tell of parts that have been read is kept. -/
theorem learn {F : Prop} {p : Parse α} (hp : Honest source (known ∧ F) P p Q)
    (h : known → ∀ ts, P ts → F) : Honest source known P p Q := by
  intro input s hb hq
  obtain ⟨hq', hrest⟩ := hp input s hb hq
  exact ⟨hq', fun hA hw hP => hrest ⟨hA, h hA _ hP⟩ hw hP⟩

theorem keep {F : Prop} {p : Parse α} (hp : Honest source (known ∧ F) anywhere p Q) :
    Honest source known (fun _ => F) p Q :=
  learn (hp.pre fun _ _ _ => trivial) fun _ _ h => h

/-- What becomes of a part that may be missing where types are not plain. -/
theorem settle {link : Link} {p : Parse α}
    (hp : Honest source (known ∧ (hasPlainTypes source → link.isSome)) anywhere p Q) :
    Honest source known (Given source link) p Q :=
  learn (hp.pre fun _ _ _ => trivial) fun _ _ h => h.1

theorem ite {c : Prop} [Decidable c] {p q : Parse α} (ht : c → Honest source known P p Q)
    (he : ¬c → Honest source known P q Q) : Honest source known P (if c then p else q) Q := by
  split
  · exact ht ‹_›
  · exact he ‹_›

/-- A test that is passed. -/
theorem yes {p q : Parse α} (h : Honest source known P p Q) :
    Honest source known P (if true = true then p else q) Q :=
  h

/-- A test that is not passed. -/
theorem no {p q : Parse α} (h : Honest source known P q Q) :
    Honest source known P (if false = true then p else q) Q :=
  h

/-- A reader that goes on only where it has got a part. -/
theorem present {link : Link} {p q : Parse α} (hnone : link = none → Honest source known P p Q)
    (hsome : link.isSome → Honest source known P q Q) :
    Honest source known P (if link.isNone then p else q) Q := by
  cases link with
  | none => exact hnone rfl
  | some _ => exact hsome rfl

/-- Two readers, one of which is chosen, and what follows either of them. -/
theorem choose {c : Prop} [Decidable c] {p q : Parse α} {k : α → Parse β}
    (ht : c → Honest source known P p Q) (he : ¬c → Honest source known P q Q)
    (hk : ∀ a, Honest source known (Q a) (k a) G) :
    Honest source known P (if c then p >>= k else q >>= k) G :=
  ite (fun hc => seq (ht hc) hk) fun hc => seq (he hc) hk

/-! ## Readers that only look -/

/-- A reader that changes nothing. -/
theorem seen {p : Parse α} (h : ∀ input s, ((p.run input).run s).2 = s) :
    Honest source known P p fun _ => P := by
  intro input s hb hq
  rw [h] at hq ⊢
  exact ⟨hq, fun _ hw hP => ⟨hw, hP⟩⟩

theorem look {f : List Token → α} {k : α → Parse β}
    (hk : ∀ a, Honest source known (fun ts => P ts ∧ f ts = a) (k a) G) :
    Honest source known P (Parse.look f >>= k) G := by
  intro input s hb hq
  obtain ⟨hq', hrest⟩ := hk (f s.tokens) input s hb hq
  exact ⟨hq', fun hA hw hP => hrest hA hw ⟨hP, rfl⟩⟩

theorem kind {k : TokenKind → Parse β}
    (hk : ∀ next, Honest source known (fun ts => P ts ∧ headKind ts = next) (k next) G) :
    Honest source known P (Parse.kind >>= k) G :=
  look hk

theorem isAt {next : TokenKind} {k : Bool → Parse β}
    (hyes : Honest source known (fun ts => P ts ∧ headKind ts = next) (k true) G)
    (hno : Honest source known (fun ts => P ts ∧ headKind ts ≠ next) (k false) G) :
    Honest source known P (Parse.isAt next >>= k) G := by
  refine look fun found => ?_
  cases found with
  | true => exact hyes.pre fun _ ts h => ⟨h.1, of_decide_eq_true h.2⟩
  | false => exact hno.pre fun _ ts h => ⟨h.1, of_decide_eq_false h.2⟩

theorem token : Honest source known P Parse.token fun _ => P := seen fun _ _ => rfl

theorem offset : Honest source known P Parse.offset fun _ => P := seen fun _ _ => rfl

theorem position : Honest source known P Parse.position fun _ => P := seen fun _ _ => rfl

theorem aborted : Honest source known P Parse.aborted fun _ => P := seen fun _ _ => rfl

theorem nameAt (link : Link) : Honest source known P (Parse.nameAt link) fun _ => P :=
  seen fun _ _ => rfl

theorem nodeText (link : Link) : Honest source known P (Parse.nodeText link) fun _ => P :=
  seen fun input s => Keeps.run_nodeText link input s

/-! ## Reports -/

section

variable {R : Unit → List Token → Prop}

/-- What has been reported is never taken back. -/
theorem report (rule : Rule) (start stop : Nat) (arguments : List String) :
    Honest source known P (Parse.report rule start stop arguments) R := by
  rintro input s - ⟨hq, -⟩
  exact absurd hq (Array.push_ne_empty)

theorem unexpected : Honest source known P Parse.unexpected R :=
  seq token fun _ => report _ _ _ _

theorem unsupported (token : Token) (what : String) :
    Honest source known P (Parse.unsupported token what) R :=
  report _ _ _ _

end

/-- What follows a report. -/
theorem told {p : Parse α} {k : α → Parse β} (hp : Honest source known P p fun _ _ => False)
    (hk : ∀ a, Honest source known (fun _ => False) (k a) G) :
    Honest source known P (p >>= k) G :=
  seq hp hk

/-! ## Reading tokens -/

theorem advance : Honest source known P Parse.advance fun _ ts =>
    ∃ before, before <:+ source ∧ P before ∧ ts = before.tail := by
  intro input s hb hq
  have hrun : ((Parse.advance.run input).run s).2 = s.advance := rfl
  rw [hrun] at hq ⊢
  have hkept : s.advance.diagnostics = s.diagnostics ∧ s.advance.tooDeep = s.tooDeep := by
    unfold State.advance
    split <;> exact ⟨rfl, rfl⟩
  refine ⟨⟨hkept.1 ▸ hq.1, hkept.2 ▸ hq.2⟩, fun _ hw hP => ⟨⟨?_, ?_⟩, ?_⟩⟩
  · rw [s.tokens_advance_eq_tail]
    exact (List.tail_suffix _).trans hw.tokens
  · rw [s.tree_advance]
    exact hw.nodes
  · exact ⟨s.tokens, hw.tokens, hP, s.tokens_advance_eq_tail⟩

theorem advanceByPast (n : Nat) : Honest source known P (Parse.advanceBy n) fun _ ts =>
    ∃ before, P before ∧ ts = before.drop n := by
  induction n generalizing P with
  | zero => exact ret fun _ ts hP => ⟨ts, hP, rfl⟩
  | succ n ih =>
    refine seq advance fun _ => ih.post ?_
    rintro _ _ _ ⟨_, ⟨before, -, hP, rfl⟩, rfl⟩
    exact ⟨before, hP, by rw [← List.drop_one, List.drop_drop, Nat.add_comm]⟩

theorem advanceBy (n : Nat) : Honest source known P (Parse.advanceBy n) anything :=
  any (advanceByPast n)

/-- Behind a word the type that stands there can be read where types are plain. -/
theorem advancePlain {word : TokenKind} (h : ∀ ts, P ts → headKind ts = word) :
    Honest source known P Parse.advance fun _ ts => hasPlainTypes source → plainBehind word ts := by
  refine advance.post ?_
  rintro _ _ _ ⟨before, hs, hP, rfl⟩ hplain
  exact h before hP ▸ plainBehind_of_suffix hplain hs

theorem accepted (next : TokenKind) : Honest source known P (Parse.accept next) fun found ts =>
    if found then Behind source next P ts else P ts ∧ headKind ts ≠ next := by
  refine isAt (seq advance fun _ => ret fun _ ts h => ?_) (ret fun _ ts h => h)
  obtain ⟨before, hs, hP, ht⟩ := h
  exact ⟨before, hs, hP.1, hP.2, ht⟩

theorem accept {next : TokenKind} {k : Bool → Parse β}
    (hyes : Honest source known (Behind source next P) (k true) G)
    (hno : Honest source known (fun ts => P ts ∧ headKind ts ≠ next) (k false) G) :
    Honest source known P (Parse.accept next >>= k) G := by
  refine seq (accepted next) fun found => ?_
  cases found with
  | true => exact hyes
  | false => exact hno

theorem expect {next : TokenKind} {k : Bool → Parse β}
    (hyes : Honest source known (Behind source next P) (k true) G)
    (hno : Honest source known (fun _ => False) (k false) G) :
    Honest source known P (Parse.expect next >>= k) G := by
  refine seq (Q := fun found ts => found = true ∧ Behind source next P ts) ?_ fun found => ?_
  · refine accept (ret fun _ _ h => ⟨rfl, h⟩) ?_
    exact seq token fun _ => told (report _ _ _ _) fun _ => unreached
  · cases found with
    | true => exact hyes.pre fun _ _ h => h.2
    | false => exact hno.pre fun _ _ h => Bool.false_ne_true h.1

theorem require (next : TokenKind) :
    Honest source known P (Parse.require next) fun _ => Behind source next P :=
  expect (ret fun _ _ h => h) unreached

/-- A token that does not belong to a type tells that a type has not broken off in front of it. -/
theorem requireBehind {next : TokenKind} (hn : breaksOff next = false) {link : Link}
    {k : Unit → Parse β} (h : known → ∀ ts, P ts → Sure link ts)
    (hk : Honest source (known ∧ link.isSome) anywhere (k ()) G) :
    Honest source known P (Parse.require next >>= k) G := by
  refine seq (require next) fun _ => learn (hk.pre fun _ _ _ => trivial) fun hA ts hts => ?_
  obtain ⟨before, -, hP, hhead, -⟩ := hts
  exact (h hA before hP).isSome (hhead ▸ hn)

/-! ## Nesting -/

/-- A construct that may not be entered is none that nothing is reported of. -/
theorem nested {p : Parse α} (hp : Honest source known P p Q) :
    Honest source known P (Parse.nested p) fun found ts => ∃ a, found = some a ∧ Q a ts := by
  intro input s hb hq
  rw [Keeps.run_nested] at hq ⊢
  -- a construct that is too deep, or stands in one, leaves the place where that was seen
  by_cases hdeep : s.tooDeep.isSome
  · rw [if_pos hdeep] at hq
    rw [show s.tooDeep = none from hq.2] at hdeep
    cases hdeep
  · rw [if_neg hdeep] at hq ⊢
    by_cases hmost : maxNesting ≤ s.depth
    · rw [if_pos hmost] at hq
      cases hq.2
    · rw [if_neg hmost] at hq ⊢
      obtain ⟨hq', hrest⟩ := hp input s.enter hb hq
      refine ⟨hq', fun hA hw hP => ?_⟩
      obtain ⟨hw', hQ⟩ := hrest hA (hw.congr rfl rfl) hP
      exact ⟨hw'.congr rfl rfl, _, rfl, hQ⟩

/-- A nested construct and what follows it. -/
theorem inside {p : Parse α} {k : Option α → Parse β} {b : β} (hp : Honest source known P p Q)
    (hnone : k none = pure b) (hk : ∀ a, Honest source known (Q a) (k (some a)) G) :
    Honest source known P (Parse.nested p >>= k) G := by
  refine seq (nested hp) fun found => ?_
  cases found with
  | none =>
    rw [hnone]
    exact ret fun _ _ ⟨_, hn, _⟩ => nomatch hn
  | some a =>
    refine (hk a).pre ?_
    rintro _ _ ⟨_, ha, hQ⟩
    exact Option.some.inj ha ▸ hQ

/-! ## Loops -/

theorem iterate {σ : Type} {I : σ → List Token → Prop} {step : σ → Parse (σ × Bool)} {a : σ}
    (h : ∀ a, Honest source known (I a) (step a) fun x => I x.1)
    (ha : known → ∀ ts, P ts → I a ts) : Honest source known P (Parse.iterate step a) I := by
  -- what is given of the first round is kept up to any bound on the number of rounds
  have bounded (bound : Nat) :
      ∀ a, Honest source known (I a) (Parse.iterateAtMost step bound a) I := by
    induction bound with
    | zero => exact fun a => ret fun _ _ hI => hI
    | succ bound ih =>
      intro a
      refine seq (h a) ?_
      rintro ⟨next, again⟩
      exact ite (fun _ => ih next) fun _ => ret fun _ _ hI => hI
  exact fun input s hb hq => (bounded input.budget a).pre ha input s hb hq

/-- A loop whose rounds each read a token, but for the one that ends it. -/
theorem iterateLast {σ : Type} {I : σ → List Token → Prop} {L : List Token → Prop}
    {step : σ → Parse (σ × Bool)} {a : σ}
    (h : ∀ a n, Honest source known (fun ts => I a ts ∧ ts.length ≤ n) (step a) fun x ts =>
      if x.2 then I x.1 ts ∧ ts.length < n else L ts)
    (ha : known → ∀ ts, P ts → I a ts) : Honest source known P (Parse.iterate step a) fun _ => L := by
  have bounded (bound : Nat) : ∀ a, Honest source known (fun ts => I a ts ∧ ts.length < bound)
      (Parse.iterateAtMost step bound a) fun _ => L := by
    induction bound with
    | zero => exact fun a => ret fun _ _ hI => absurd hI.2 (Nat.not_lt_zero _)
    | succ bound ih =>
      intro a
      refine seq ((h a bound).pre fun _ _ hI => ⟨hI.1, Nat.le_of_lt_succ hI.2⟩) ?_
      rintro ⟨next, again⟩
      cases again with
      | true => exact yes (ih next)
      | false => exact no (ret fun _ _ hL => hL)
  intro input s hb hq
  obtain ⟨hq', hrest⟩ := bounded input.budget a input s hb hq
  -- the tokens that are left are some of the source, which has fewer than there may be rounds
  exact ⟨hq', fun hA hw hP =>
    hrest hA hw ⟨ha hA _ hP, Nat.lt_of_le_of_lt hw.tokens.length_le hb⟩⟩

theorem repeatStep {step : Parse Bool} (h : Honest source known P step fun _ => P) :
    Honest source known P (Parse.repeatStep step) fun _ => P :=
  iterate (fun _ => seq h fun _ => ret fun _ _ hP => hP) fun _ _ hP => hP

theorem repeated {step : Parse Bool} (h : Honest source known anywhere step anything) :
    Honest source known P (Parse.repeatStep step) anything :=
  iterate (fun _ => seq h fun _ => done) fun _ _ _ => trivial

theorem collect {step : Parse (Link × Bool)} (h : Honest source known anywhere step anything) :
    Honest source known P (Parse.collect step) anything :=
  iterate (fun _ => seq h fun _ => done) fun _ _ _ => trivial

/-! ## Nodes -/

theorem addNode {kind : NodeKind} {payload : Payload} (start stop : Nat)
    (h : known → payload.Whole (hasPlainTypes source) kind) :
    Honest source known P (Parse.addNode kind start stop payload) fun _ => P :=
  fun _ _ _ hq => ⟨hq, fun hA hw hP => ⟨⟨hw.tokens, hw.nodes.add (h hA) _ _⟩, hP⟩⟩

theorem finish {kind : NodeKind} {payload : Payload} (start : Nat)
    (h : known → payload.Whole (hasPlainTypes source) kind) :
    Honest source known P (Parse.finish kind start payload) fun link _ => link.isSome := by
  refine seq (Q := fun _ => P) (seen fun _ _ => rfl) fun s => ?_
  exact seq (addNode _ _ h) fun _ => ret fun _ _ _ => rfl

/-- A reader that gives a node gives it wherever nothing is reported. -/
theorem certain {p : Parse Link} (hp : Honest source known P p fun link _ => link.isSome) :
    Honest source known P p (Given source) :=
  hp.post fun _ _ _ h => .of_isSome h

theorem finishGiven {kind : NodeKind} {payload : Payload} (start : Nat)
    (h : known → payload.Whole (hasPlainTypes source) kind) :
    Honest source known P (Parse.finish kind start payload) (Given source) :=
  certain (finish start h)

theorem toTypeReference (link : Link) :
    Honest source known P (Parse.toTypeReference link) fun _ => P := by
  cases link with
  | none => exact ret fun _ _ hP => hP
  | some id =>
    refine seq (Q := fun _ => P) (seen fun _ _ => rfl) fun node => ?_
    cases node with
    | none => exact ret fun _ _ hP => hP
    | some node =>
      have hnone (text : String) : Payload.Whole (hasPlainTypes source) .typeReference
          (.typeReference text) := trivial
      exact fun _ _ _ hq => ⟨hq, fun _ hw hP => ⟨⟨hw.tokens, hw.nodes.replace (hnone _) id⟩, hP⟩⟩

end Honest

end JavaNames.Grammar
