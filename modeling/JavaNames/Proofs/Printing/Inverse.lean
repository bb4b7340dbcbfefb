/-
Writing an expression and reading it again. Main statement: every expression whose operands fit their
places and whose parts are not nested more deeply than is accepted is read back from what is written
for it, to the last token, without a diagnostic, with nodes that say what it says. Nested more deeply
it is not read to its end, however simple it is.
-/
import JavaNames.Proofs.Printing.Construct
import JavaNames.Proofs.Printing.Text
import JavaNames.Proofs.Reading.Unit

namespace JavaNames.Grammar

open Expression

mutual

/-- Every written expression is read as what it is. -/
theorem readable {input : Input} : (expression : Expression) → expression.fits →
    Readable input expression
  | .name n, _ => readable_name n
  | .literal _ text, h => readable_literal h text
  | .this, _ => readable_this
  | .parenthesized inner, h => readable_parenthesized h (readable inner h)
  | .field receiver n, h => by
    simp only [fits, Bool.and_eq_true, decide_eq_true_eq] at h
    exact readable_field h.2 h.1 (readable receiver h.2) n
  | .call n arguments, h => readable_call n (readable_arguments arguments h)
  | .invoke receiver n arguments, h => by
    simp only [fits, Bool.and_eq_true, decide_eq_true_eq] at h
    exact readable_invoke h.1.2 h.1.1 (readable receiver h.1.2) n (readable_arguments arguments h.2)
  | .index array place, h => by
    simp only [fits, Bool.and_eq_true, decide_eq_true_eq] at h
    exact readable_index h.1.2 h.1.1 (readable array h.1.2) h.2 (readable place h.2)
  | .lead operator operand, h => by
    simp only [fits, Bool.and_eq_true, decide_eq_true_eq] at h
    exact readable_lead operator h.1 (readable operand h.2)
  | .trail operator operand, h => by
    simp only [fits, Bool.and_eq_true, decide_eq_true_eq] at h
    exact readable_trail h.2 h.1 (readable operand h.2) operator
  | .binary operator left right, h => by
    simp only [fits, Bool.and_eq_true, decide_eq_true_eq] at h
    obtain ⟨⟨⟨hll, hrl⟩, hl⟩, hr⟩ := h
    exact readable_binary operator hr hll hrl (readable left hl) (readable right hr)
  | .conditional condition whenTrue whenFalse, h => by
    simp only [fits, Bool.and_eq_true, decide_eq_true_eq] at h
    obtain ⟨⟨⟨hl, hc⟩, ht⟩, hf⟩ := h
    exact readable_conditional hl (readable condition hc) (readable whenTrue ht)
      (readable whenFalse hf)
  | .assignment operator left right, h => by
    simp only [fits, Bool.and_eq_true, decide_eq_true_eq] at h
    exact readable_assignment operator h.1.1 (readable left h.1.2) (readable right h.2)

theorem readable_arguments {input : Input} : (expressions : List Expression) → allFit expressions →
    ∀ a ∈ expressions, a.fits ∧ Readable input a
  | [], _, _, ha => absurd ha List.not_mem_nil
  | expression :: others, h, a, ha => by
    simp only [allFit, Bool.and_eq_true] at h
    rcases List.mem_cons.1 ha with heq | ha
    · exact heq ▸ ⟨h.1, readable expression h.1⟩
    · exact readable_arguments others h.2 a ha

end

/-! ## Reading back -/

/-- Reads an expression with the readers for a file. -/
def Parse.wholeExpression : Parse Link := do (← readers) .expression

/-- What reading the tokens of a written expression gives, and the state behind it. -/
def Expression.reading (expression : Expression) (file : String) : Link × State :=
  (Parse.wholeExpression.run (.ofTokens file expression.text expression.tokens)).run
    (.start expression.tokens [])

/-- What is written for an expression is scanned as its tokens, if its names and literals are. The
tokens are read to their end, without a diagnostic, as that expression. -/
structure Expression.ReadsBack (expression : Expression) (file : String) : Prop where
  scanned : expression.Spelled → Token.scan file expression.text = ⟨expression.tokens, []⟩
  tokens : (expression.reading file).2.tokens = []
  diagnostics : (expression.reading file).2.diagnostics = #[]
  tooDeep : (expression.reading file).2.tooDeep = none
  node : expression.StandsAt (expression.reading file).2.tree (expression.reading file).1

/-- Every expression that fits and is not nested too deeply is read back. -/
theorem readsBack_of_fits (expression : Expression) (file : String) (hf : expression.fits)
    (hn : expression.nesting + 2 ≤ maxNesting) : expression.ReadsBack file := by
  have hcalm : Calm expression.tokens := by
    have h : Calm (spaced 0 expression.words ++ []) := calm_words expression hf 0 ⟨trivial, rfl⟩
    rwa [List.append_nil] at h
  have hready : Ready (.ofTokens file expression.text expression.tokens) (expression.nesting + 2)
      (.start expression.tokens []) :=
    ⟨rfl, by simpa [State.start] using hn, Nat.lt_succ_self _, hcalm⟩
  obtain ⟨link, s, hrun, hk, ht, hst⟩ := (readable expression hf).expression _ 0 [] hready
    (List.append_nil _).symm (.of_isCloser rfl)
  have hreading : expression.reading file = (link, s) := hrun
  refine ⟨fun h => scan_text h file, ?_, ?_, ?_, ?_⟩
  all_goals rw [hreading]
  · exact ht
  · exact hk.diagnostics
  · exact hk.tooDeep
  · exact hst

/-- An expression with an operator of every sort. -/
def sampleExpression : Expression :=
  .assignment .shiftRightZero (.index (.name "a") (.name "i"))
    (.conditional
      (.binary .greater (.trail .plusPlus (.field .this "n"))
        (.parenthesized
          (.binary .shiftRight (.name "x") (.lead .minus (.literal (.literal .number) "1")))))
      (.call "f" [.name "x", .name "y"])
      (.invoke (.name "o") "m" []))

theorem readsBack_sampleExpression : sampleExpression.fits ∧
    sampleExpression.nesting + 2 ≤ maxNesting ∧
    sampleExpression.text = "a [ i ] >>>= this . n ++ > ( x >> - 1 ) ? f ( x , y ) : o . m ( )" ∧
    sampleExpression.ReadsBack "A.java" :=
  ⟨rfl, by decide +kernel, by decide +kernel,
    readsBack_of_fits sampleExpression "A.java" rfl (by decide +kernel)⟩

/-! ## Too many levels -/

/-- A name behind a number of exclamation marks. -/
def negations : Nat → Expression
  | 0 => .name "x"
  | n + 1 => .lead .bang (negations n)

theorem leadingLevel_le_negations (n : Nat) : leadingLevel ≤ (negations n).level := by
  cases n with
  | zero => exact Nat.le_succ _
  | succ n => exact Nat.le_refl _

theorem fits_negations (n : Nat) : (negations n).fits := by
  induction n with
  | zero => rfl
  | succ n ih =>
    rw [negations, fits, ih, Bool.and_true]
    exact decide_eq_true (leadingLevel_le_negations n)

theorem nesting_negations (n : Nat) : (negations n).nesting = n := by
  induction n with
  | zero => rfl
  | succ n ih => rw [negations, nesting, ih]

theorem calm_negations (n start : Nat) : Calm (spaced start (negations n).words) := by
  have h : Calm (spaced start (negations n).words ++ []) :=
    calm_words (negations n) (fits_negations n) start ⟨trivial, rfl⟩
  rwa [List.append_nil] at h

/-- An operand is not read where no further level is accepted. -/
theorem run_unary_refused {input : Input} {s : State} (hb : s.tokens.length < input.budget)
    (hd : maxNesting ≤ s.depth) (hs : s.tooDeep = none) :
    ((input.readers .unary).run input).run s = (none, s.refuse (s.offset input)) := by
  rw [run_readers hb]
  refine (run_bind (a := none) ?_).trans rfl
  rw [Keeps.run_nested, hs, if_neg (by simp), if_pos hd]

/-- Where the levels do not suffice, the name is left, with some of the marks in front of it. -/
theorem run_unary_negations {input : Input} (n : Nat) {s : State} {start : Nat}
    (ht : s.tokens = spaced start (negations n).words) (hb : s.tokens.length < input.budget)
    (hn : maxNesting ≤ s.depth + n) (hs : s.tooDeep = none) :
    ∃ link s', ((input.readers .unary).run input).run s = (link, s') ∧
      (∃ m next, s'.tokens = spaced next (negations m).words) ∧
      (s.depth < maxNesting → link.isSome) := by
  induction n generalizing s start with
  | zero =>
    exact ⟨none, _, run_unary_refused hb hn hs, ⟨0, start, ht⟩, fun h => absurd h (Nat.not_lt.2 hn)⟩
  | succ n ih =>
    -- with a level left the first mark is read, and the others are its operand
    rcases Nat.lt_or_ge s.depth maxNesting with hlt | hge
    · have hready : Ready input (0 + 1) s :=
        ⟨hs, hlt, hb, ht ▸ calm_negations (n + 1) start⟩
      have hkept := (State.Kept.refl s.enter).advance
      have hinside := hready.enter.after hkept (Nat.le_refl _)
      have hdepth : maxNesting ≤ s.enter.advance.depth + n := by
        rw [hkept.depth]
        simp only [State.enter]
        omega
      have hbehind : s.enter.advance.tokens = _ := State.tokens_advance ht
      obtain ⟨operand, s', hrun, hleft, -⟩ := ih hbehind hinside.bound hdepth hinside.tooDeep
      have hhead : headKind s.tokens = .mark LeadingOperator.bang.mark := headKind_of_cons ht
      exact ⟨_, _, (run_readers hb _).trans (run_unary_lead hready _ _ .bang hhead hrun), hleft,
        fun _ => rfl⟩
    · exact ⟨none, _, run_unary_refused hb hge hs, ⟨n + 1, start, ht⟩,
        fun h => absurd h (Nat.not_lt.2 hge)⟩

/-- Neither a mark nor a name goes on with an expression in front of it. -/
theorem final_negations (n start : Nat) : Final (spaced start (negations n).words) := by
  have hquestion : headKind (spaced start (negations n).words) ≠ .mark .question := by
    cases n <;> (intro h; cases h)
  cases n <;> exact ⟨⟨rfl, fun _ ho => by cases ho⟩, hquestion, rfl⟩

theorem spaced_negations_ne_nil (n start : Nat) : spaced start (negations n).words ≠ [] := by
  cases n <;> exact List.cons_ne_nil _ _

/-- Where the levels do not suffice, tokens are left. -/
theorem tokens_reading_negations {n : Nat} (hn : maxNesting < n + 2) (file : String) :
    ((negations n).reading file).2.tokens ≠ [] := by
  -- the file and the first state stay names, so that nothing below computes with the marks
  obtain ⟨input, s, hbound, hdepth, htooDeep, htokens, hreading⟩ : ∃ (input : Input) (s : State),
      s.tokens.length < input.budget ∧ s.depth = 0 ∧ s.tooDeep = none ∧
      s.tokens = spaced 0 (negations n).words ∧
      (negations n).reading file = ((input.readers .expression).run input).run s :=
    ⟨.ofTokens file (negations n).text (negations n).tokens, .start (negations n).tokens [],
      Nat.lt_succ_self _, rfl, rfl, rfl, rfl⟩
  have hready : Ready input (0 + 1) s :=
    ⟨htooDeep, by rw [hdepth]; decide, hbound, htokens ▸ calm_negations n 0⟩
  have hroom : maxNesting ≤ s.enter.depth + n := by
    simp only [State.enter]
    omega
  have hlevel : s.enter.depth < maxNesting := by
    simp only [State.enter, hdepth]
    decide
  obtain ⟨link, s', hunary, ⟨m, next, hleft⟩, hsome⟩ :=
    run_unary_negations n (s := s.enter) htokens hbound hroom htooDeep
  have hfinal : Final s'.tokens := hleft ▸ final_negations m next
  have hbinary : ((input.readers (.binary 0)).run input).run s.enter = (link, s') := by
    refine (run_readers hready.enter.bound _).trans ?_
    refine (run_binary _ 0 hunary (hsome hlevel)).trans ?_
    exact run_iterate_of_last (Nat.zero_lt_of_lt hbound)
      (run_operatorRound_of_bounded _ _ _ _ hfinal.bounded)
  have hconditional := run_conditional_of_binary hbinary (hsome hlevel) hfinal.question
  have hexpression : ((input.readers .expression).run input).run s = (link, s'.leave) :=
    (run_readers hbound _).trans
      (run_expression_of_conditional hready hconditional hfinal.assignment)
  rw [hreading, hexpression]
  exact fun h => spaced_negations_ne_nil m next (hleft.symm.trans h)

/-- One mark more than there are levels for is too many. -/
theorem not_readsBack_negations : (negations 999).fits ∧
    (negations 999).nesting + 2 = maxNesting + 1 ∧ ¬(negations 999).ReadsBack "A.java" :=
  ⟨fits_negations 999, by rw [nesting_negations]; rfl,
    fun h => tokens_reading_negations (by decide) "A.java" h.tokens⟩

end JavaNames.Grammar
