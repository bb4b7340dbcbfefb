/-
Operands of casts: a lambda or a unary expression. Main statements: what starts an operand that is read
without a diagnostic, and that it is read the same where its first token has another token in front.
-/
import JavaNames.Proofs.Printing.Reading
import JavaNames.Proofs.Reading.Levels
import JavaNames.Proofs.Shifting.Statement
import JavaNames.Proofs.Silence.Unit

namespace JavaNames.Grammar

/-- Reads the operand of a cast. -/
def Parse.operand (r : Readers) : Parse Link := do
  if ← look isLambda then lambda r else r .unary

/-- A cast is a type in parentheses with an operand behind it. -/
theorem Parse.cast_eq (r : Readers) : cast r = (do
    let start ← offset
    advance
    let type ← typeReference true
    require (.mark .closeParen)
    let operand ← operand r
    finish .cast start (.cast type operand)) := by
  unfold cast operand
  simp only [bind_assoc]
  refine bind_congr fun start => bind_congr fun _ => bind_congr fun type => bind_congr fun _ =>
    bind_congr fun found => ?_
  split <;> rfl

/-! ## What starts an operand -/

/-- Whether a token of a kind is a sign in front of an operand that may also stand between operands. -/
def isSign (kind : TokenKind) : Bool :=
  match kind with
  | .mark .plus | .mark .minus | .mark .plusPlus | .mark .minusMinus => true
  | _ => false

theorem isLeading_of_isSign {kind : TokenKind} (h : isSign kind) : isLeading kind := by
  unfold isSign at h
  split at h
  case h_5 => cases h
  all_goals rfl

/-- What may start the operand of a cast. -/
inductive StartsOperand (tokens : List Token) : Prop
  | plain : startsCastOperand (headKind tokens) → StartsOperand tokens
  | sign : isSign (headKind tokens) → StartsOperand tokens
  | type : (headKind tokens).isPrimitiveType → (afterType? tokens).isSome → StartsOperand tokens

theorem StartsOperand.ne_nil {tokens : List Token} (h : StartsOperand tokens) : tokens ≠ [] := by
  rintro rfl
  cases h <;> exact absurd ‹_› Bool.false_ne_true

section

variable (input : Input) {s : State} (r : Readers)

/-- A token that is missing is reported. -/
theorem exists_of_require {kind : TokenKind} (h : headKind s.tokens ≠ kind) :
    ∃ diagnostic, ((Parse.require kind).run input).run s = ((), s.report diagnostic) := by
  have haccept : ((Parse.accept kind).run input).run s = (false, s) := by
    rw [run_accept, if_neg h]
  rw [Parse.require, Parse.expect, bind_assoc, run_bind haccept]
  exact ⟨_, rfl⟩

/-- A primitive type that breaks off is reported, and there is no node for it. -/
theorem exists_of_primitiveType (start : Nat) (hk : (headKind s.tokens).isPrimitiveType)
    (ht : afterType? s.tokens = none) :
    ∃ s', ((Parse.primitiveType start).run input).run s = (none, s') ∧ s'.diagnostics ≠ #[] := by
  have hne (kind : TokenKind) (h : kind.isPrimitiveType = false) : headKind s.tokens ≠ kind := by
    rintro rfl
    rw [h] at hk
    cases hk
  obtain ⟨first, hfirst⟩ := exists_of_require input (hne .identifier rfl)
  have htype : ((Parse.typeReference false).run input).run s = (none, s.report first) := by
    rw [Parse.typeReference, run_offset, run_look, ht]
    exact run_bind hfirst
  have hclass : ((Parse.classLiteral? start none).run input).run (s.report first) =
      (none, s.report first) := by
    rw [Parse.classLiteral?, run_look]
    rw [show headKind (s.report first).tokens = headKind s.tokens from rfl,
      decide_eq_false (hne (.mark .dot) rfl)]
    rfl
  obtain ⟨second, hsecond⟩ := exists_of_require input (s := s.report first)
    (hne (.mark .dot) rfl)
  refine ⟨(s.report first).report second, ?_, by simp [State.report]⟩
  rw [Parse.primitiveType, run_bind htype, run_bind hclass]
  dsimp only
  rw [run_isAt, show headKind (s.report first).tokens = headKind s.tokens from rfl,
    decide_eq_false (hne (.mark .doubleColon) rfl)]
  exact run_bind hsecond

/-- Where no operand starts, that is reported, and there is no node. -/
theorem exists_of_primary (hk : startsCastOperand (headKind s.tokens) = false)
    (ht : (headKind s.tokens).isPrimitiveType → afterType? s.tokens = none) :
    ∃ s', ((Parse.primary r).run input).run s = (none, s') ∧ s'.diagnostics ≠ #[] := by
  rw [Parse.primary, run_offset, Parse.kind, run_look]
  split
  case h_11 =>
    split
    · exact exists_of_primitiveType input _ ‹_› (ht ‹_›)
    · exact ⟨_, rfl, by simp⟩
  all_goals
    rw [‹headKind s.tokens = _›] at hk
    cases hk

theorem exists_of_trailing (hk : startsCastOperand (headKind s.tokens) = false)
    (ht : (headKind s.tokens).isPrimitiveType → afterType? s.tokens = none) :
    ∃ s', ((Parse.trailing r).run input).run s = (none, s') ∧ s'.diagnostics ≠ #[] := by
  obtain ⟨s', hrun, hreported⟩ := exists_of_primary input r hk ht
  refine ⟨s', ?_, hreported⟩
  rw [Parse.trailing, run_offset, run_bind hrun]
  rfl

/-- A unary expression that is read without a diagnostic starts with what may start an operand. -/
theorem startsOperand_of_unary
    (hq : (((Parse.unary r (Parse.trailing r)).run input).run s).2.Quiet) : StartsOperand s.tokens := by
  by_cases hk : startsCastOperand (headKind s.tokens)
  · exact .plain hk
  by_cases hs : isSign (headKind s.tokens)
  · exact .sign hs
  by_cases ht : (headKind s.tokens).isPrimitiveType ∧ (afterType? s.tokens).isSome
  · exact .type ht.1 ht.2
  have hnone (hp : (headKind s.tokens).isPrimitiveType) : afterType? s.tokens = none :=
    Option.not_isSome_iff_eq_none.1 fun h => ht ⟨hp, h⟩
  obtain ⟨s', hrun, hreported⟩ :=
    exists_of_trailing input r (s := s.enter) (Bool.eq_false_iff.2 hk) hnone
  -- inside the construct, if it is entered, neither an operator nor a parenthesis comes first
  have hinside (p : Parse Link) (hp : (p.run input).run s.enter = (none, s'))
      (hq : (((do return (← Parse.nested p).join : Parse Link).run input).run s).2.Quiet) : False := by
    have hnested : (((do return (← Parse.nested p).join : Parse Link).run input).run s).2 =
      (((Parse.nested p).run input).run s).2 := rfl
    rw [hnested, Keeps.run_nested, hp] at hq
    split at hq
    · rename_i hdeep
      rw [show s.tooDeep = none from hq.2] at hdeep
      cases hdeep
    · split at hq
      · cases hq.2
      · exact hreported hq.1
  refine (hinside _ ?_ hq).elim
  rw [run_offset, Parse.kind, run_look]
  split
  case h_8 => exact hrun
  all_goals
    rw [show headKind s.tokens = _ from ‹headKind s.enter.tokens = _›] at hk hs
    first | exact absurd rfl hk | exact absurd rfl hs

/-- An operand that is read without a diagnostic starts with what may start one. -/
theorem startsOperand_of_operand (hu : ∀ t : State, t.tokens = s.tokens →
      ((r .unary).run input).run t = ((Parse.unary r (Parse.trailing r)).run input).run t)
    (hq : (((Parse.operand r).run input).run s).2.Quiet) : StartsOperand s.tokens := by
  rw [Parse.operand, run_look] at hq
  by_cases hl : isLambda s.tokens
  · refine .plain ?_
    unfold isLambda at hl
    split at hl
    case h_3 => cases hl
    all_goals
      rw [‹headKind s.tokens = _›]
      rfl
  · rw [if_neg hl, hu s rfl] at hq
    exact startsOperand_of_unary input r hq

end

/-! ## What stands in front -/

/-- The state where the last token read ends at another offset. -/
def State.endingAt (s : State) (stop : Nat) : State := { s with lastStop := stop }

/-- A state is behind itself, but for where the last token read ends. -/
theorem State.start_behind (s : State) {levels : Nat} (hdepth : s.depth = levels)
    (htooDeep : s.tooDeep = none) :
    (((State.start s.tokens []).deeper levels).behind s).endingAt s.lastStop = s := by
  obtain ⟨tokens, consumed, lastStop, tree, diagnostics, depth, tooDeep⟩ := s
  obtain rfl : depth = levels := hdepth
  obtain rfl : tooDeep = none := htooDeep
  simp [endingAt, behind, deeper, start]

/-- A reader of certain tokens does the same wherever the token in front of them ends, as long as so many
constructs more can be entered. -/
def Fresh {α : Type} (tokens : List Token) (levels : Nat) (p : Parse α) : Prop :=
  ∀ (input : Input) (s : State) (stop : Nat), s.tokens = tokens → s.tooDeep = none →
    s.depth + levels ≤ maxNesting →
    (p.run input).run (s.endingAt stop) = (p.run input).run s

namespace Fresh

variable {α β : Type} {tokens : List Token} {levels : Nat} {r : Readers}

/-- A reader that only asks for something. -/
theorem ask {p : Parse α} {k : α → Parse β} {a : Input → State → α}
    (hp : ∀ input s, (p.run input).run s = (a input s, s))
    (ha : ∀ input s stop, a input (s.endingAt stop) = a input s)
    (hk : ∀ a, Fresh tokens levels (k a)) : Fresh tokens levels (p >>= k) := by
  intro input s stop
  rw [run_bind (hp input s), run_bind (hp input _), ha]
  exact hk _ input s stop

theorem offset {k : Nat → Parse α} (hk : ∀ o, Fresh tokens levels (k o)) :
    Fresh tokens levels (Parse.offset >>= k) :=
  ask (a := fun input s => s.offset input) (fun _ _ => rfl) (fun _ _ _ => rfl) hk

theorem token {k : Token → Parse α} (hk : ∀ t, Fresh tokens levels (k t)) :
    Fresh tokens levels (Parse.token >>= k) :=
  ask (a := fun input s => s.tokens.headD (.endOfFile input.stop)) (fun _ _ => rfl)
    (fun _ _ _ => rfl) hk

theorem look {f : List Token → α} {k : α → Parse β} (hk : Fresh tokens levels (k (f tokens))) :
    Fresh tokens levels (Parse.look f >>= k) := by
  rintro input s stop rfl
  exact hk input s stop rfl

theorem ite {c : Prop} [Decidable c] {p q : Parse α} (ht : c → Fresh tokens levels p)
    (he : ¬c → Fresh tokens levels q) : Fresh tokens levels (if c then p else q) := by
  split
  · exact ht ‹_›
  · exact he ‹_›

theorem seq {p : Parse α} {k : α → Parse β} (hp : Fresh tokens levels p) :
    Fresh tokens levels (p >>= k) := by
  intro input s stop hts hdeep hroom
  rw [ReaderT.run_bind, StateT.run_bind, hp input s stop hts hdeep hroom]
  rfl

/-- Behind a token that is read, it is that token which stands in front. -/
theorem advance (h : tokens ≠ []) : Fresh tokens levels Parse.advance := by
  rintro input s stop rfl - -
  obtain ⟨ts, consumed, lastStop, tree, diagnostics, depth, tooDeep⟩ := s
  cases ts with
  | nil => exact absurd rfl h
  | cons token rest => rfl

theorem advanceBy {n : Nat} (hn : 0 < n) (h : tokens ≠ []) :
    Fresh tokens levels (Parse.advanceBy n) := by
  obtain ⟨n, rfl⟩ := Nat.exists_eq_succ_of_ne_zero (Nat.ne_of_gt hn)
  exact seq (advance h)

theorem nested {p : Parse α} (hp : Fresh tokens levels p) :
    Fresh tokens (levels + 1) (Parse.nested p) := by
  intro input s stop hts hdeep hroom
  have hinside : (p.run input).run (s.endingAt stop).enter = (p.run input).run s.enter :=
    hp input s.enter stop hts hdeep (by simp only [State.enter]; omega)
  have hnone : ¬s.tooDeep.isSome := by simp [hdeep]
  have hlt : ¬maxNesting ≤ s.depth := by omega
  rw [Keeps.run_nested, Keeps.run_nested, if_neg hnone, if_neg hlt, ← hinside]
  exact (if_neg hnone).trans (if_neg hlt)

/-! ## Operands -/

theorem typeReference (h : (afterType? tokens).isSome) :
    Fresh tokens levels (Parse.typeReference false) := by
  obtain ⟨rest, hrest⟩ := Option.isSome_iff_exists.1 h
  have hlt := length_lt_of_afterType? hrest
  have hne : tokens ≠ [] := by
    rintro rfl
    cases hlt
  refine offset fun start => look ?_
  rw [hrest]
  exact seq (look (advanceBy (Nat.sub_pos_of_lt hlt) hne))

theorem word (h : tokens ≠ []) : Fresh tokens levels Parse.word :=
  token fun _ => seq (advance h)

theorem lambdaParameters (h : tokens ≠ []) : Fresh tokens levels Parse.lambdaParameters := by
  refine look ?_
  split
  · refine seq (offset fun _ => seq (look ?_))
    rw [if_pos ‹_›]
    exact word h
  · exact seq (advance h)

theorem lambda (h : tokens ≠ []) : Fresh tokens 1 (Parse.lambda r) :=
  seq (nested (offset fun _ => seq (lambdaParameters h)))

theorem literal (start : Nat) (h : tokens ≠ []) : Fresh tokens levels (Parse.literal start) :=
  token fun _ => seq (advance h)

theorem primary (h : StartsOperand tokens) (hl : isLeading (headKind tokens) = false)
    (hne : tokens ≠ []) : Fresh tokens levels (Parse.primary r) := by
  refine offset fun start => look ?_
  split
  case h_1 | h_2 | h_3 | h_4 => exact literal start hne
  case h_7 => exact token fun _ => seq (advance hne)
  case h_11 =>
    cases h with
    | plain h =>
      -- the leading signs aside, each of these starts a primary expression
      generalize headKind tokens = kind at *
      unfold startsCastOperand at h
      rcases Bool.or_eq_true_iff.1 h with h | h
      · cases kind with
        | literal => simp_all
        | keyword word => cases word <;> simp_all [TokenKind.isLiteral, Keyword.isLiteral]
        | _ => cases h
      · split at h <;> simp_all [isLeading]
    | sign h => exact absurd (isLeading_of_isSign h) (Bool.eq_false_iff.1 hl)
    | type hk ht =>
      rw [if_pos hk]
      exact seq (typeReference ht)
  all_goals exact seq (advance hne)

theorem cast (h : tokens ≠ []) : Fresh tokens levels (Parse.cast r) :=
  offset fun _ => seq (advance h)

theorem unary (h : StartsOperand tokens) : Fresh tokens 1 (Parse.unary r (Parse.trailing r)) := by
  have hne := h.ne_nil
  refine seq (nested (offset fun start => look ?_))
  have htrailing (hl : isLeading (headKind tokens) = false) : Fresh tokens 0 (Parse.trailing r) :=
    offset fun _ => seq (primary h hl hne)
  split
  case h_7 =>
    refine look (ite (fun _ => cast hne) fun _ => htrailing ?_)
    simp [isLeading, *]
  case h_8 =>
    refine htrailing ?_
    unfold isLeading
    split <;> simp_all
  all_goals exact look (seq (advance hne))

theorem operand (h : StartsOperand tokens) (hu : Fresh tokens 1 (r .unary)) :
    Fresh tokens 1 (Parse.operand r) :=
  look (ite (fun _ => lambda h.ne_nil) fun _ => hu)

end Fresh

/-! ## Operands on their own -/

theorem Forward.operand {t steps : Nat} {r r' : Readers} (h : Serve steps r r')
    (ht : 5 * t + 4 < steps) : Forward t (Parse.operand r) (Parse.operand r') anyhow :=
  test rfl (fun hpos => lambda h hpos (by omega)) (call h .unary ht)

theorem Shifts.operand {front : State} {r : Readers} (h : Shifting front r) :
    Shifts front front.link (Parse.operand r) (Parse.operand r) :=
  look fun _ => ite Iff.rfl (fun _ => lambda h) fun _ => h .unary

theorem Reads.operand {ρ : Renaming} {known : Known} {r r' : Readers} (h : Agree ρ r r') :
    Reads ρ known [] (Parse.operand r) (Parse.operand r') (one .expression) :=
  glance (fun _ _ h => h.isLambda_eq) fun _ => ite (fun _ => lambda h) fun _ => h _ .unary

theorem Honest.operand {source : List Token} {known : Prop} {P : List Token → Prop} {r : Readers}
    (h : Tells source r) : Honest source known P (Parse.operand r) Sure := by
  refine look fun _ => ite (fun _ => ?_) fun _ => ?_
  · exact (lambda h).post fun _ _ _ hsome => .inl hsome
  · exact (given h .unary rfl).post fun _ _ _ hgiven => hgiven.2

/-- What the operand of a cast is read as on its own, inside a number of constructs. -/
def Parse.operandAlone (file text : String) (tokens : List Token) (levels : Nat) : Link × State :=
  let input := Input.ofTokens file text tokens
  ((operand input.readers).run input).run ((State.start tokens []).deeper levels)

/-- Tokens that are read as an operand to their end, without a diagnostic, where a cast may stand. -/
structure IsOperand (file text : String) (tokens : List Token) : Prop where
  toEnd : (Parse.operandAlone file text tokens 2).2.tokens = []
  quiet : (Parse.operandAlone file text tokens 2).2.Quiet

namespace IsOperand

variable {file text : String} {tokens : List Token}

theorem startsOperand (h : IsOperand file text tokens) : StartsOperand tokens :=
  startsOperand_of_operand _ (Input.ofTokens file text tokens).readers
    (fun _ ht => run_readers (ht ▸ Nat.lt_succ_self _) .unary) h.quiet

theorem isSome (h : IsOperand file text tokens) :
    (Parse.operandAlone file text tokens 2).1.isSome := by
  -- readers that refuse in the end tell what they miss, and an operand cannot tell them from others
  have hreaders := tells_readersOver (tells_refusing tokens) (8 * (tokens.length + 1))
  have hserve : Serve (5 * (tokens.length + 1)) (Parse.readersTo (8 * (tokens.length + 1)))
      (Parse.readersOver Parse.refusing (8 * (tokens.length + 1))) := by
    rw [Parse.readersTo_eq]
    exact serve_readersOver _ _ (by omega) (by omega)
  have hforward : Forward tokens.length _ _ anyhow := Forward.operand hserve (by omega)
  have heq := (hforward (.ofTokens file text tokens) (tokens.length + 1)
    ((State.start tokens []).deeper 2) (Nat.le_refl _) (Nat.lt_succ_self _) (Nat.lt_succ_self _)).1
  have hwhole : ((State.start tokens []).deeper 2).Whole tokens := by
    refine ⟨List.suffix_refl _, fun id node hn => ?_⟩
    simp [State.deeper, State.start, Tree.empty, Tree.node?] at hn
  have hhonest : Honest tokens True anywhere _ Sure := Honest.operand hreaders
  have htold := hhonest (.ofTokens file text tokens) ((State.start tokens []).deeper 2)
    (Nat.lt_succ_self _)
  have hrun : ((Parse.operand (Parse.readersOver Parse.refusing (8 * (tokens.length + 1)))).run
      (.ofTokens file text tokens)).run ((State.start tokens []).deeper 2) =
        Parse.operandAlone file text tokens 2 := heq
  rw [hrun] at htold
  obtain ⟨-, hsure⟩ := (htold h.quiet).2 trivial hwhole trivial
  rw [h.toEnd] at hsure
  exact hsure.isSome rfl

/-- Inside of fewer constructs an operand is read as the same. -/
theorem alone_eq (h : IsOperand file text tokens) {levels : Nat} (hle : levels ≤ 2) :
    Parse.operandAlone file text tokens levels =
      ((Parse.operandAlone file text tokens 0).1,
        (Parse.operandAlone file text tokens 0).2.deeper levels) := by
  have hlowers : Lowers (fun _ => True) (Parse.operand (Input.ofTokens file text tokens).readers) :=
    (Reads.operand (agree_readersTo .id _)).lowers
  have hdeeper : ((State.start tokens []).deeper levels).deeper (2 - levels) =
      (State.start tokens []).deeper 2 := by
    rw [State.deeper_deeper, Nat.add_sub_cancel' hle]
  have hup := hlowers (.ofTokens file text tokens) (2 - levels) ((State.start tokens []).deeper levels)
    trivial
  rw [hdeeper] at hup
  have hquiet := h.quiet.2
  obtain ⟨-, heq⟩ := hup hquiet
  unfold Parse.operandAlone at hquiet
  rw [heq] at hquiet
  exact (hlowers (.ofTokens file text tokens) levels (State.start tokens []) trivial hquiet).2

/-- Behind other tokens an operand is read as it is on its own. -/
theorem run_behind (h : IsOperand file text tokens) {budget : Nat} (hbudget : tokens.length < budget)
    {s : State} (hts : s.tokens = tokens) (hdepth : s.depth = 2) (htooDeep : s.tooDeep = none) :
    ((Parse.operand (Parse.readersTo (8 * budget))).run
        { Input.ofTokens file text tokens with budget }).run s =
      (s.link (Parse.operandAlone file text tokens 2).1,
        (Parse.operandAlone file text tokens 2).2.behind s) := by
  have hserve : Serve (5 * (tokens.length + 1)) (Parse.readersTo (8 * (tokens.length + 1)))
      (Parse.readersTo (8 * budget)) := serve_readersTo (by omega) (by omega)
  have hforward : Forward tokens.length _ _ anyhow := Forward.operand hserve (by omega)
  -- the readers for more tokens do the same on the operand alone
  have halone : ((Parse.operand (Parse.readersTo (8 * budget))).run
      { Input.ofTokens file text tokens with budget }).run ((State.start tokens []).deeper 2) =
        Parse.operandAlone file text tokens 2 :=
    (hforward (.ofTokens file text tokens) budget ((State.start tokens []).deeper 2) (Nat.le_refl _)
      (Nat.lt_succ_self _) hbudget).1
  -- and behind the state, up to the end of the token in front
  have hshift := Shifts.operand (shifting_readersTo s (8 * budget))
    { Input.ofTokens file text tokens with budget } ((State.start tokens []).deeper 2)
  rw [halone] at hshift
  have hfresh : Fresh tokens 1 (Parse.operand (Parse.readersTo (8 * budget))) := by
    obtain ⟨steps, hsteps⟩ : ∃ steps, 8 * budget = steps + 1 := ⟨8 * budget - 1, by omega⟩
    rw [hsteps]
    exact .operand h.startsOperand (.unary h.startsOperand)
  have hs : s = (((State.start tokens []).deeper 2).behind s).endingAt s.lastStop := by
    rw [← hts, s.start_behind hdepth htooDeep]
  have hroom : (((State.start tokens []).deeper 2).behind s).depth + 1 ≤ maxNesting := by
    change 2 + 1 ≤ maxNesting
    decide
  have hend := hfresh { Input.ofTokens file text tokens with budget } _ s.lastStop rfl rfl hroom
  rw [← hs, hshift] at hend
  exact hend

end IsOperand

end JavaNames.Grammar
