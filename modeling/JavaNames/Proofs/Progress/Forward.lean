/-
Readers that go forward. `Forward` is a system of rules for two readers of the same tokens that call
different readers for the constructs inside and whose loops have different bounds. As long as there is
at least one round for every token that is left, and one more, both do the same: they take tokens from
the front and give none back, and no bound ends a loop.

A rule keeps a number that the tokens left do not exceed. It falls with every token that is read, so
a loop whose rounds make it fall needs no bound, and a call after it has fallen may use any
construct again.
-/
import JavaNames.Proofs.Progress.Ahead
import JavaNames.Proofs.Reading.Invariant

namespace JavaNames.Grammar

/-! ## Moves of the cursor -/

/-- The cursor has moved forward, and not behind the end of the file. -/
def State.Onward (s s' : State) : Prop :=
  ∃ n ≤ s.tokens.length, s'.tokens = s.tokens.drop n ∧ s'.consumed = s.consumed + n

namespace State.Onward

variable {s s' s'' : State}

theorem of_eq (ht : s'.tokens = s.tokens) (hc : s'.consumed = s.consumed) : s.Onward s' :=
  ⟨0, Nat.zero_le _, ht, hc⟩

theorem refl (s : State) : s.Onward s := of_eq rfl rfl

theorem trans (h : s.Onward s') (h' : s'.Onward s'') : s.Onward s'' := by
  obtain ⟨n, hn, ht, hc⟩ := h
  obtain ⟨m, hm, ht', hc'⟩ := h'
  rw [ht, List.length_drop] at hm
  refine ⟨n + m, by omega, ?_, by omega⟩
  rw [ht', ht, List.drop_drop]

theorem length_le (h : s.Onward s') : s'.tokens.length ≤ s.tokens.length := by
  obtain ⟨n, -, ht, -⟩ := h
  rw [ht, List.length_drop]
  omega

/-- A cursor that has moved has left fewer tokens. -/
theorem length_lt (h : s.Onward s') (hc : s'.consumed ≠ s.consumed) :
    s'.tokens.length < s.tokens.length := by
  obtain ⟨n, hn, ht, hc'⟩ := h
  rw [ht, List.length_drop]
  omega

theorem advance (s : State) : s.Onward s.advance := by
  unfold State.advance
  split
  · exact refl s
  · rename_i token rest ht
    exact ⟨1, by simp [ht], by simp [ht], rfl⟩

end State.Onward

theorem State.length_advance (s : State) : s.advance.tokens.length = s.tokens.length - 1 := by
  unfold State.advance
  split
  · simp [*]
  · simp [*]

/-! ## Two readers -/

/-- What holds of the result of a reader and the state behind it: a bound on the tokens left, below
that on the tokens before, is known with the result. -/
structure Reached {α : Type} (t : Nat) (Q : α → Nat → Prop) (s : State) (x : α × State) : Prop where
  onward : s.Onward x.2
  left : ∃ u ≤ t, Q x.1 u ∧ x.2.tokens.length ≤ u

/-- Two readers do the same from at most `t` tokens, whatever bounds their loops have, as long as these
exceed the tokens that are left. -/
def Forward {α : Type} (t : Nat) (p p' : Parse α) (Q : α → Nat → Prop) : Prop :=
  ∀ (input : Input) (budget : Nat) (s : State), s.tokens.length ≤ t →
    s.tokens.length < input.budget → s.tokens.length < budget →
    (p'.run { input with budget }).run s = (p.run input).run s ∧ Reached t Q s ((p.run input).run s)

/-- Two readers do the same where certain tokens come next. -/
def ForwardFrom {α : Type} (tokens : List Token) (t : Nat) (p p' : Parse α) (Q : α → Nat → Prop) :
    Prop :=
  ∀ (input : Input) (budget : Nat) (s : State), s.tokens = tokens →
    s.tokens.length < input.budget → s.tokens.length < budget →
    (p'.run { input with budget }).run s = (p.run input).run s ∧ Reached t Q s ((p.run input).run s)

/-- Nothing is known of the result. -/
abbrev anyhow {α : Type} : α → Nat → Prop := fun _ _ => True

/-- A reader that leaves the tokens as they are and does not depend on the bound of loops. -/
def Still {α : Type} (p : Parse α) : Prop :=
  ∀ (input : Input) (budget : Nat) (s : State),
    (p.run { input with budget }).run s = (p.run input).run s ∧
      ((p.run input).run s).2.tokens = s.tokens ∧ ((p.run input).run s).2.consumed = s.consumed

namespace Forward

variable {α β : Type} {t : Nat}

/-! ## Sequences and branches -/

theorem ret {a : α} {Q : α → Nat → Prop} (h : Q a t) : Forward t (pure a) (pure a) Q :=
  fun _ _ s hs _ _ => ⟨rfl, .refl s, t, Nat.le_refl t, h, hs⟩

theorem seq {p p' : Parse α} {k k' : α → Parse β} {F : α → Nat → Prop} {G : β → Nat → Prop}
    (hp : Forward t p p' F) (hk : ∀ a, ∀ u ≤ t, F a u → Forward u (k a) (k' a) G) :
    Forward t (p >>= k) (p' >>= k') G := by
  intro input budget s hs hi hb
  obtain ⟨heq, honward, u, hu, hF, hleft⟩ := hp input budget s hs hi hb
  have hle := honward.length_le
  obtain ⟨heq', honward', w, hw, hG, hleft'⟩ :=
    hk _ u hu hF input budget _ hleft (by omega) (by omega)
  rw [ReaderT.run_bind, StateT.run_bind, heq]
  exact ⟨heq', honward.trans honward', w, Nat.le_trans hw hu, hG, hleft'⟩

/-- A reader of whose result nothing is known, and then another. -/
theorem skip {p p' : Parse α} {k k' : α → Parse β} {G : β → Nat → Prop}
    (hp : Forward t p p' anyhow) (hk : ∀ a, Forward t (k a) (k' a) G) :
    Forward t (p >>= k) (p' >>= k') G := by
  intro input budget s hs hi hb
  obtain ⟨heq, honward, -⟩ := hp input budget s hs hi hb
  have hle := honward.length_le
  obtain ⟨heq', honward', hleft⟩ := hk _ input budget _ (Nat.le_trans hle hs)
    (Nat.lt_of_le_of_lt hle hi) (Nat.lt_of_le_of_lt hle hb)
  rw [ReaderT.run_bind, StateT.run_bind, heq]
  exact ⟨heq', honward.trans honward', hleft⟩

/-- A value that is passed on. -/
theorem now {a : α} {k k' : α → Parse β} {G : β → Nat → Prop} (h : Forward t (k a) (k' a) G) :
    Forward t (pure a >>= k) (pure a >>= k') G :=
  fun input budget s => h input budget s

theorem post {p p' : Parse α} {F G : α → Nat → Prop} (hp : Forward t p p' F)
    (h : ∀ a u, F a u → G a u) : Forward t p p' G := by
  intro input budget s hs hi hb
  obtain ⟨heq, honward, u, hu, hF, hleft⟩ := hp input budget s hs hi hb
  exact ⟨heq, honward, u, hu, h _ _ hF, hleft⟩

theorem any {p p' : Parse α} {F : α → Nat → Prop} (hp : Forward t p p' F) :
    Forward t p p' anyhow :=
  post hp fun _ _ _ => trivial

/-- The tokens left behind a reader are no more than those in front of it. -/
theorem below {u : Nat} {p p' : Parse α} (hp : Forward u p p' anyhow) (hu : u < t) :
    Forward u p p' fun _ w => w < t := by
  intro input budget s hs hi hb
  obtain ⟨heq, honward, w, hw, -, hleft⟩ := hp input budget s hs hi hb
  exact ⟨heq, honward, w, hw, Nat.lt_of_le_of_lt hw hu, hleft⟩

theorem ite {c : Prop} [Decidable c] {p p' q q' : Parse α} {G : α → Nat → Prop}
    (ht : c → Forward t p p' G) (he : ¬c → Forward t q q' G) :
    Forward t (if c then p else q) (if c then p' else q') G := by
  split
  · exact ht ‹_›
  · exact he ‹_›

/-- Two readers, one of which is chosen, and what follows either of them. -/
theorem choose {c : Prop} [Decidable c] {p p' q q' : Parse α} {k k' : α → Parse β}
    {G : β → Nat → Prop} (ht : c → Forward t p p' anyhow) (he : ¬c → Forward t q q' anyhow)
    (hk : ∀ a, Forward t (k a) (k' a) G) :
    Forward t (if c then p >>= k else q >>= k) (if c then p' >>= k' else q' >>= k') G :=
  ite (fun hc => skip (ht hc) hk) fun hc => skip (he hc) hk

/-! ## Readers that stand still -/

theorem still {p : Parse α} (h : Still p) : Forward t p p anyhow := by
  intro input budget s hs _ _
  obtain ⟨heq, ht, hc⟩ := h input budget s
  exact ⟨heq, .of_eq ht hc, t, Nat.le_refl t, trivial, by rwa [ht]⟩

/-- Where a token is seen, one is left. -/
theorem pos_of_ne_nil {ts : List Token} (hts : ts.length ≤ t) (h : ts ≠ []) : 0 < t :=
  Nat.lt_of_lt_of_le (List.length_pos_iff.2 h) hts

/-- A function of the tokens to come. -/
theorem look {f : List Token → α} {k k' : α → Parse β} {G : β → Nat → Prop}
    (hk : ∀ ts : List Token, ts.length ≤ t → Forward t (k (f ts)) (k' (f ts)) G) :
    Forward t (Parse.look f >>= k) (Parse.look f >>= k') G :=
  fun input budget s hs hi hb => hk s.tokens hs input budget s hs hi hb

/-- A function of the tokens to come, which stay known. -/
theorem lookFrom {f : List Token → α} {k k' : α → Parse β} {G : β → Nat → Prop}
    (hk : ∀ ts : List Token, ts.length ≤ t → ForwardFrom ts t (k (f ts)) (k' (f ts)) G) :
    Forward t (Parse.look f >>= k) (Parse.look f >>= k') G :=
  fun input budget s hs hi hb => hk s.tokens hs input budget s rfl hi hb

/-- A condition on the tokens to come that does not hold at the end of the file. -/
theorem test {f : List Token → Bool} (hf : f [] = false) {k k' : Bool → Parse β}
    {G : β → Nat → Prop} (hyes : 0 < t → Forward t (k true) (k' true) G)
    (hno : Forward t (k false) (k' false) G) :
    Forward t (Parse.look f >>= k) (Parse.look f >>= k') G := by
  refine look fun ts hts => ?_
  cases ha : f ts with
  | false => exact hno
  | true =>
    refine hyes (pos_of_ne_nil hts ?_)
    rintro rfl
    exact Bool.false_ne_true (hf.symm.trans ha)

theorem isAt {next : TokenKind} (hn : next ≠ .endOfFile) {k k' : Bool → Parse β}
    {G : β → Nat → Prop} (hyes : 0 < t → Forward t (k true) (k' true) G)
    (hno : Forward t (k false) (k' false) G) :
    Forward t (Parse.isAt next >>= k) (Parse.isAt next >>= k') G :=
  test (by simp [headKind, hn.symm]) hyes hno

/-- The kind of the next token. There is a token unless it is the end of the file. -/
theorem kind {k k' : TokenKind → Parse β} {G : β → Nat → Prop}
    (hk : ∀ next, (next ≠ .endOfFile → 0 < t) → Forward t (k next) (k' next) G) :
    Forward t (Parse.kind >>= k) (Parse.kind >>= k') G := by
  refine look fun ts hts => hk _ fun hn => pos_of_ne_nil hts ?_
  rintro rfl
  exact hn rfl

section

variable (t)

theorem token : Forward t Parse.token Parse.token anyhow := still fun _ _ _ => ⟨rfl, rfl, rfl⟩

theorem offset : Forward t Parse.offset Parse.offset anyhow := still fun _ _ _ => ⟨rfl, rfl, rfl⟩

theorem position : Forward t Parse.position Parse.position anyhow :=
  still fun _ _ _ => ⟨rfl, rfl, rfl⟩

theorem aborted : Forward t Parse.aborted Parse.aborted anyhow :=
  still fun _ _ _ => ⟨rfl, rfl, rfl⟩

theorem nameAt (link : Link) : Forward t (Parse.nameAt link) (Parse.nameAt link) anyhow :=
  still fun _ _ _ => ⟨rfl, rfl, rfl⟩

theorem report (rule : Rule) (start stop : Nat) (arguments : List String) :
    Forward t (Parse.report rule start stop arguments) (Parse.report rule start stop arguments)
      anyhow :=
  still fun _ _ _ => ⟨rfl, rfl, rfl⟩

theorem unexpected : Forward t Parse.unexpected Parse.unexpected anyhow :=
  still fun _ _ _ => ⟨rfl, rfl, rfl⟩

theorem finish (kind : NodeKind) (start : Nat) (payload : Payload) :
    Forward t (Parse.finish kind start payload) (Parse.finish kind start payload) anyhow :=
  still fun _ _ _ => ⟨rfl, rfl, rfl⟩

theorem nodeText (link : Link) : Forward t (Parse.nodeText link) (Parse.nodeText link) anyhow := by
  refine still fun input budget s => ?_
  have hbind (i : Input) (f : Input → Option Node → Parse String) :
      ((do f (← read) (← Parse.nodeAt link)).run i).run s =
        ((f i (s.tree.at? link)).run i).run s := rfl
  refine ⟨(hbind _ _).trans (Eq.trans ?_ (hbind _ _).symm), ?_, ?_⟩
  · cases s.tree.at? link <;> rfl
  · rw [Keeps.run_nodeText]
  · rw [Keeps.run_nodeText]

theorem toTypeReference (link : Link) :
    Forward t (Parse.toTypeReference link) (Parse.toTypeReference link) anyhow := by
  cases link with
  | none => exact ret trivial
  | some id =>
    refine skip (still fun _ _ _ => ⟨rfl, rfl, rfl⟩) fun node => ?_
    cases node with
    | none => exact ret trivial
    | some node => exact still fun _ _ _ => ⟨rfl, rfl, rfl⟩

end

end Forward

/-! ## Known tokens -/

namespace ForwardFrom

variable {α β : Type} {t : Nat} {tokens : List Token} {G : β → Nat → Prop}

theorem of_forward {p p' : Parse β} (h : tokens.length ≤ t) (hp : Forward t p p' G) :
    ForwardFrom tokens t p p' G := by
  rintro input budget s rfl hi hb
  exact hp input budget s h hi hb

theorem look {f : List Token → α} {k k' : α → Parse β}
    (hk : ForwardFrom tokens t (k (f tokens)) (k' (f tokens)) G) :
    ForwardFrom tokens t (Parse.look f >>= k) (Parse.look f >>= k') G := by
  rintro input budget s rfl hi hb
  exact hk input budget s rfl hi hb

theorem skip {p : Parse α} (hp : Still p) {k k' : α → Parse β}
    (hk : ∀ a, ForwardFrom tokens t (k a) (k' a) G) :
    ForwardFrom tokens t (p >>= k) (p >>= k') G := by
  rintro input budget s rfl hi hb
  obtain ⟨heq, ht, hc⟩ := hp input budget s
  obtain ⟨heq', honward, hleft⟩ :=
    hk _ input budget _ ht (by rwa [ht]) (by rwa [ht])
  rw [ReaderT.run_bind, StateT.run_bind, heq]
  exact ⟨heq', (State.Onward.of_eq ht hc).trans honward, hleft⟩

theorem seq {p p' : Parse α} {k k' : α → Parse β} {F : α → Nat → Prop}
    (hp : ForwardFrom tokens t p p' F)
    (hk : ∀ a, ∀ u ≤ t, F a u → Forward u (k a) (k' a) G) :
    ForwardFrom tokens t (p >>= k) (p' >>= k') G := by
  rintro input budget s rfl hi hb
  obtain ⟨heq, honward, u, hu, hF, hleft⟩ := hp input budget s rfl hi hb
  have hle := honward.length_le
  obtain ⟨heq', honward', w, hw, hG, hleft'⟩ :=
    hk _ u hu hF input budget _ hleft (by omega) (by omega)
  rw [ReaderT.run_bind, StateT.run_bind, heq]
  exact ⟨heq', honward.trans honward', w, Nat.le_trans hw hu, hG, hleft'⟩

end ForwardFrom

namespace Forward

variable {α β : Type} {t : Nat}

/-! ## Reading tokens -/

theorem advance_lt (ht : 0 < t) : Forward t Parse.advance Parse.advance fun _ u => u < t := by
  intro input budget s hs _ _
  have hlength : s.advance.tokens.length ≤ t - 1 := by
    rw [s.length_advance]
    omega
  exact ⟨rfl, .advance s, t - 1, Nat.sub_le t 1, by omega, hlength⟩

/-- Reading a token, or none at the end of the file. -/
theorem advanceAny (t : Nat) : Forward t Parse.advance Parse.advance anyhow := by
  intro input budget s hs _ _
  have hlength := Nat.le_trans (State.Onward.advance s).length_le hs
  exact ⟨rfl, .advance s, t, Nat.le_refl t, trivial, hlength⟩

theorem advanceByAny (n t : Nat) : Forward t (Parse.advanceBy n) (Parse.advanceBy n) anyhow := by
  induction n with
  | zero => exact ret trivial
  | succ n ih => exact skip (advanceAny t) fun _ => ih

/-- Reading a token where there is one, and then another reader. -/
theorem advance (ht : 0 < t) {k k' : Unit → Parse β} {G : β → Nat → Prop}
    (hk : ∀ u < t, Forward u (k ()) (k' ()) G) :
    Forward t (Parse.advance >>= k) (Parse.advance >>= k') G :=
  seq (advance_lt ht) fun _ u _ hu => hk u hu

/-- Reading a number of tokens where there is one, and then another reader. -/
theorem advanceBy {n : Nat} (hn : 0 < n) (ht : 0 < t) {k k' : Unit → Parse β}
    {G : β → Nat → Prop} (hk : ∀ u < t, Forward u (k ()) (k' ()) G) :
    Forward t (Parse.advanceBy n >>= k) (Parse.advanceBy n >>= k') G := by
  cases n with
  | zero => exact absurd hn (Nat.lt_irrefl 0)
  | succ n =>
    have hassoc (l : Unit → Parse β) : Parse.advanceBy (n + 1) >>= l =
        Parse.advance >>= fun _ => Parse.advanceBy n >>= l := rfl
    rw [hassoc, hassoc]
    exact advance ht fun u hu => skip (advanceByAny n u) fun _ => hk u hu

/-- A token is read exactly when the reader tells that it is. -/
abbrev eaten (t : Nat) : Bool → Nat → Prop := fun found u => if found then u < t else u = t

theorem eat {p p' : Parse Bool} (hp : Forward t p p' (eaten t)) {k k' : Bool → Parse β}
    {G : β → Nat → Prop} (hyes : ∀ u < t, Forward u (k true) (k' true) G)
    (hno : Forward t (k false) (k' false) G) : Forward t (p >>= k) (p' >>= k') G := by
  refine seq hp fun found u _ hu => ?_
  cases found with
  | false =>
    cases hu
    exact hno
  | true => exact hyes u hu

theorem accept_eaten {next : TokenKind} (hn : next ≠ .endOfFile) :
    Forward t (Parse.accept next) (Parse.accept next) (eaten t) :=
  isAt hn (fun ht => advance ht fun _ hu => ret hu) (ret rfl)

theorem accept {next : TokenKind} (hn : next ≠ .endOfFile) {k k' : Bool → Parse β}
    {G : β → Nat → Prop} (hyes : ∀ u < t, Forward u (k true) (k' true) G)
    (hno : Forward t (k false) (k' false) G) :
    Forward t (Parse.accept next >>= k) (Parse.accept next >>= k') G :=
  eat (accept_eaten hn) hyes hno

theorem expect_eaten {next : TokenKind} (hn : next ≠ .endOfFile) :
    Forward t (Parse.expect next) (Parse.expect next) (eaten t) := by
  refine accept hn (fun _ hu => ret hu) ?_
  exact skip (token t) fun _ => skip (report t _ _ _ _) fun _ => ret rfl

theorem expect {next : TokenKind} (hn : next ≠ .endOfFile) {k k' : Bool → Parse β}
    {G : β → Nat → Prop} (hyes : ∀ u < t, Forward u (k true) (k' true) G)
    (hno : Forward t (k false) (k' false) G) :
    Forward t (Parse.expect next >>= k) (Parse.expect next >>= k') G :=
  eat (expect_eaten hn) hyes hno

section

variable (t)

theorem acceptAny (next : TokenKind) :
    Forward t (Parse.accept next) (Parse.accept next) anyhow :=
  look fun _ _ => ite (fun _ => skip (advanceAny t) fun _ => ret trivial) fun _ => ret trivial

theorem require (next : TokenKind) :
    Forward t (Parse.require next) (Parse.require next) anyhow := by
  refine skip (skip (acceptAny t next) fun _ => ?_) fun _ => ret trivial
  refine ite (fun _ => ret trivial) fun _ => ?_
  exact skip (token t) fun _ => skip (report t _ _ _ _) fun _ => ret trivial

end

/-! ## Nesting -/

theorem nested {p p' : Parse α} (hp : Forward t p p' anyhow) :
    Forward t (Parse.nested p) (Parse.nested p') anyhow := by
  have henter : Still Parse.enter := by
    intro input budget s
    have hrun (i : Input) : (Parse.enter.run i).run s =
      if s.tooDeep.isSome then (false, s)
      else if s.depth ≥ maxNesting then
        (false, { s with tooDeep := some (s.tokens.headD (.endOfFile i.stop)).start })
      else (true, { s with depth := s.depth + 1 }) := rfl
    rw [hrun, hrun]
    split
    · exact ⟨rfl, rfl, rfl⟩
    · split <;> exact ⟨rfl, rfl, rfl⟩
  have hleave : Still Parse.leave := fun _ _ _ => ⟨rfl, rfl, rfl⟩
  refine skip (still henter) fun _ => ite (fun _ => ?_) fun _ => ret trivial
  exact skip hp fun _ => skip (still hleave) fun _ => ret trivial

/-! ## Loops -/

/-- A round of a loop that begins with at most `t` tokens reads one of them or is the last. -/
abbrev eats {σ : Type} (t : Nat) : σ × Bool → Nat → Prop := fun x u => x.2 = true → u < t

/-- The last round of a loop. -/
theorem last {σ : Type} (a : σ) : Forward t (pure (a, false)) (pure (a, false)) (eats t) :=
  ret (by simp [eats])

/-- A round that has read a token. -/
theorem again {σ : Type} {u : Nat} (h : u < t) (x : σ × Bool) :
    Forward u (pure x) (pure x) (eats t) :=
  ret fun _ => h

section

variable {σ : Type} {step step' : σ → Parse (σ × Bool)}
  (h : ∀ u ≤ t, ∀ a, Forward u (step a) (step' a) (eats u))

include h

/-- The tokens left before a round are below both bounds, whatever these are. -/
theorem iterateAtMost {input : Input} {budget bound bound' : Nat} (a : σ) {s : State}
    (hs : s.tokens.length ≤ t) (hi : s.tokens.length < input.budget)
    (hb : s.tokens.length < budget) (hlt : s.tokens.length < bound)
    (hlt' : s.tokens.length < bound') :
    ((Parse.iterateAtMost step' bound' a).run { input with budget }).run s =
        ((Parse.iterateAtMost step bound a).run input).run s ∧
      s.Onward (((Parse.iterateAtMost step bound a).run input).run s).2 := by
  induction bound generalizing bound' a s with
  | zero => exact absurd hlt (Nat.not_lt_zero _)
  | succ bound ih =>
    obtain ⟨bound', rfl⟩ : ∃ n, bound' = n + 1 := ⟨bound' - 1, by omega⟩
    obtain ⟨heq, honward, w, -, heats, hleft⟩ := h _ hs a input budget s (Nat.le_refl _) hi hb
    simp only [Parse.iterateAtMost]
    rw [ReaderT.run_bind, StateT.run_bind, ReaderT.run_bind, StateT.run_bind, heq]
    rcases hrun : ((step a).run input).run s with ⟨⟨next, more⟩, s'⟩
    rw [hrun] at honward heats hleft
    cases more with
    | false => exact ⟨rfl, honward⟩
    | true =>
      have hlength : s'.tokens.length < s.tokens.length := Nat.lt_of_le_of_lt hleft (heats rfl)
      have hlt₁ : s'.tokens.length < bound := by omega
      have hlt₂ : s'.tokens.length < bound' := by omega
      obtain ⟨heq', honward'⟩ := ih next (Nat.le_trans (Nat.le_of_lt hlength) hs)
        (Nat.lt_trans hlength hi) (Nat.lt_trans hlength hb) hlt₁ hlt₂
      exact ⟨heq', honward.trans honward'⟩

theorem iterate (a : σ) : Forward t (Parse.iterate step a) (Parse.iterate step' a) anyhow := by
  intro input budget s hs hi hb
  obtain ⟨heq, honward⟩ := iterateAtMost h a hs hi hb hi hb
  exact ⟨heq, honward, t, Nat.le_refl t, trivial, Nat.le_trans honward.length_le hs⟩

/-- A loop whose first round reads a token. -/
theorem iterateFrom {tokens : List Token} (ht : tokens.length ≤ t) (a : σ)
    (hfirst : ForwardFrom tokens t (step a) (step' a) fun x u => x.2 = true ∧ u < t) :
    ForwardFrom tokens t (Parse.iterate step a) (Parse.iterate step' a) fun _ u => u < t := by
  rintro input budget s rfl hi hb
  obtain ⟨heq, honward⟩ := iterateAtMost h a ht hi hb hi hb
  refine ⟨heq, honward, ?_⟩
  obtain ⟨-, -, w, -, ⟨hmore, hw⟩, hleft⟩ := hfirst input budget s rfl hi hb
  obtain ⟨-, -, v, -, heats, hleft'⟩ := h _ ht a input budget s (Nat.le_refl _) hi hb
  obtain ⟨bound, hbound⟩ : ∃ n, input.budget = n + 1 := ⟨input.budget - 1, by omega⟩
  have hrun : ((Parse.iterate step a).run input).run s =
      ((Parse.iterateAtMost step (bound + 1) a).run input).run s := by
    rw [← hbound]
    rfl
  rw [hrun, Parse.iterateAtMost, ReaderT.run_bind, StateT.run_bind]
  generalize ((step a).run input).run s = x at hmore hleft heats hleft'
  obtain ⟨⟨next, more⟩, s'⟩ := x
  cases hmore
  have hlength : s'.tokens.length < s.tokens.length := Nat.lt_of_le_of_lt hleft' (heats rfl)
  have hlt : s'.tokens.length < bound := by omega
  have hrest := (iterateAtMost h next (Nat.le_trans (Nat.le_of_lt hlength) ht)
    (Nat.lt_trans hlength hi) (Nat.lt_trans hlength hb) hlt hlt).2.length_le
  exact ⟨w, Nat.le_of_lt hw, hw, Nat.le_trans hrest hleft⟩

end

theorem repeatStep {step step' : Parse Bool}
    (h : ∀ u ≤ t, Forward u step step' fun more w => more = true → w < u) :
    Forward t (Parse.repeatStep step) (Parse.repeatStep step') anyhow :=
  iterate (fun u hu _ => seq (h u hu) fun _ _ _ hw => ret hw) ()

theorem collect {step step' : Parse (Link × Bool)}
    (h : ∀ u ≤ t, Forward u step step' (eats u)) :
    Forward t (Parse.collect step) (Parse.collect step') anyhow := by
  refine iterate (fun u hu links => seq (h u hu) ?_) []
  exact fun _ _ _ hw => ret hw

/-- A reader and what follows it, which may depend on whether a token has been read. -/
theorem moved {p p' : Parse α} {k k' l l' : α → Parse β} {G : β → Nat → Prop}
    (hp : Forward t p p' anyhow) (hk : ∀ a, Forward t (k a) (k' a) G)
    (hl : ∀ a, ∀ u < t, Forward u (l a) (l' a) G) :
    Forward t
      (do let before ← Parse.position
          let a ← p
          if (← Parse.position) = before then k a else l a)
      (do let before ← Parse.position
          let a ← p'
          if (← Parse.position) = before then k' a else l' a) G := by
  intro input budget s hs hi hb
  obtain ⟨heq, honward, -⟩ := hp input budget s hs hi hb
  have hrun (i : Input) (q : Parse α) (m n : α → Parse β) :
      (((do let before ← Parse.position
            let a ← q
            if (← Parse.position) = before then m a else n a : Parse β)).run i).run s =
        let (a, s') := (q.run i).run s
        ((if s'.consumed = s.consumed then m a else n a).run i).run s' := rfl
  rw [hrun, hrun, heq]
  rcases hq : (p.run input).run s with ⟨a, s'⟩
  rw [hq] at honward
  have hle := honward.length_le
  dsimp only at hle ⊢
  split
  · obtain ⟨heq', honward', hleft⟩ := hk a input budget s' (by omega) (by omega) (by omega)
    exact ⟨heq', honward.trans honward', hleft⟩
  · have hlt : s'.tokens.length < s.tokens.length := honward.length_lt ‹_›
    obtain ⟨heq', honward', w, hw, hG, hleft⟩ :=
      hl a (t - 1) (by omega) input budget s' (by omega) (by omega) (by omega)
    exact ⟨heq', honward.trans honward', w, by omega, hG, hleft⟩

end Forward

end JavaNames.Grammar
