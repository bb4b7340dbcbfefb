/-
Every kind of expression is read as what it is, when its parts are. Selectors and operators stand
behind their operand, so the loop that has read the operand makes one more round; what stands in
brackets or among arguments is an expression of its own.
-/
import JavaNames.Proofs.Printing.Reading

namespace JavaNames.Grammar

open Expression Readable

variable {input : Input}

/-! ## Primaries -/

theorem readable_name (n : String) : Readable input (name n) := by
  refine of_trailing rfl (Nat.le_refl _) fun s start rest hs ht hq => ?_
  refine ⟨some s.tree.size, _, run_trailing _ (run_primary_name _ ht rfl hq) rfl,
    (State.Kept.refl s).advance.add _ _ _ _, State.tokens_advance ht, ?_⟩
  exact s.tree_advance ▸ .add _ _ _ _ _

theorem readable_literal {kind : TokenKind} (hk : kind.isLiteral) (text : String) :
    Readable input (literal kind text) := by
  refine of_trailing hk (Nat.le_refl _) fun s start rest hs ht hq => ?_
  refine ⟨some s.tree.size, _, run_trailing _ (run_primary_literal _ ht hk) rfl,
    (State.Kept.refl s).advance.add _ _ _ _, State.tokens_advance ht, ?_⟩
  exact s.tree_advance ▸ .add _ _ _ _ _

theorem readable_this : Readable input this := by
  refine of_trailing rfl (Nat.le_refl _) fun s start rest hs ht hq => ?_
  refine ⟨some s.tree.size, _, run_trailing _ (run_primary_this _ ht rfl hq) rfl,
    (State.Kept.refl s).advance.add _ _ _ _, State.tokens_advance ht, ?_⟩
  exact s.tree_advance ▸ .add _ _ _ _ _

theorem readable_parenthesized {inner : Expression} (he : inner.fits) (h : Readable input inner) :
    Readable input (parenthesized inner) := by
  refine of_trailing he (Nat.le_refl _) fun s start rest hs ht hq => ?_
  rw [words, spaced_single, spaced_append, List.cons_append, List.append_assoc] at ht
  have hs' := hs.after (State.Kept.refl s).advance (Nat.le_refl _)
  obtain ⟨link, s', hrun, hk, ht', hst⟩ := h.expression s.advance _ _ hs' (State.tokens_advance ht)
    (.of_isCloser rfl)
  have hclose : headKind s'.tokens = .mark .closeParen := headKind_of_cons ht'
  refine ⟨_, _, run_trailing _ (run_primary_parenthesized _ ht rfl hrun hclose) rfl,
    ((State.Kept.refl s).advance.trans hk).advance.add _ _ _ _, State.tokens_advance ht', ?_⟩
  refine ⟨link, .add _ _ _ _ _, hst.mono ?_⟩
  exact s'.tree_advance ▸ .add _ _ _ _ _

theorem readable_call (n : String) {arguments : List Expression}
    (h : ∀ a ∈ arguments, a.fits ∧ Readable input a) : Readable input (call n arguments) := by
  refine of_trailing (allFit_of_fits fun a ha => (h a ha).1) (Nat.le_refl _)
    fun s start rest hs ht hq => ?_
  rw [words, spaced_single, List.cons_append] at ht
  have hs' := hs.after (State.Kept.refl s).advance (Nat.le_refl _)
  obtain ⟨links, s', hrun, hk, ht', hst⟩ := run_argumentList h hs' (State.tokens_advance ht)
  refine ⟨_, _, run_trailing _ (run_primary_call _ ht rfl rfl hrun) rfl,
    ((State.Kept.refl s).advance.trans hk).add _ _ _ _, ht', ?_⟩
  exact ⟨links, .add _ _ _ _ _, hst.mono (.add _ _ _ _ _)⟩

/-! ## Selectors -/

/-- A selector behind an expression is one more round of the loop that has read the expression. -/
theorem Readable.of_selector {e e' : Expression} {selector : Words} (he : e'.fits)
    (hl : trailingLevel ≤ e'.level) (hw : e'.words = e.words ++ selector)
    (hopen : ∀ start rest, headKind (spaced start selector ++ rest) ≠ .mark .openParen)
    (hle : trailingLevel ≤ e.level) (hn : e.nesting ≤ e'.nesting) (h : Readable input e)
    (hround : ∀ (s : State) (start : Nat) (rest : List Token) (o : Nat) (link : Link),
      Ready input e'.nesting s → s.tokens = spaced start selector ++ rest →
      headKind rest ≠ .mark .openParen → e.StandsAt s.tree link →
      ∃ link' s', ((Parse.selectorRound input.readers o link).run input).run s =
          ((link', true), s') ∧
        s.Kept s' ∧ s'.tokens = rest ∧ e'.StandsAt s'.tree link') :
    Readable input e' := by
  refine of_trailing he hl fun s start rest hs ht hq => ?_
  rw [hw, spaced_append, List.append_assoc] at ht
  obtain ⟨link, s', hrun, hk, ht', hst⟩ :=
    h.trailing hle s start _ (hs.mono hn) ht (hopen _ _)
  have hs' := hs.after hk (Nat.le_refl _)
  obtain ⟨link', s'', hrun', hk', ht'', hst'⟩ := hround s' _ rest (s.offset input) link hs' ht' hq hst
  exact ⟨link', s'', hrun.trans (Input.select_again hs'.bound hrun'), hk.trans hk', ht'', hst'⟩

section

variable {e : Expression} (he : e.fits) (hl : trailingLevel ≤ e.level) (h : Readable input e)

include he hl h

theorem readable_field (n : String) : Readable input (field e n) := by
  refine of_selector (by simp [fits, he, hl]) (Nat.le_refl _) rfl ?_ hl (Nat.le_refl _) h ?_
  · exact fun _ _ hk => by cases hk
  intro s start rest o link hs ht hq hst
  have hkept := (State.Kept.refl s).advance.advance
  refine ⟨_, _, run_selectorRound_field _ o link ht rfl rfl rfl hq, hkept.add _ _ _ _, ?_, link, ?_,
    hst.mono (hkept.add _ _ _ _).tree⟩
  · exact State.tokens_advance (State.tokens_advance ht)
  · exact .of_add (by simp) _ _ _ _

theorem readable_invoke (n : String) {arguments : List Expression}
    (ha : ∀ a ∈ arguments, a.fits ∧ Readable input a) : Readable input (invoke e n arguments) := by
  have hall := allFit_of_fits fun a hm => (ha a hm).1
  refine of_selector (by simp [fits, he, hl, hall]) (Nat.le_refl _) rfl ?_ hl
    (Nat.le_max_left _ _) h ?_
  · exact fun _ _ hk => by cases hk
  intro s start rest o link hs ht hq hst
  rw [spaced_single, spaced_single, List.cons_append, List.cons_append] at ht
  have hkept := (State.Kept.refl s).advance.advance
  obtain ⟨links, s', hrun, hk, ht', hst'⟩ := run_argumentList ha
    (hs.after hkept (Nat.le_max_right _ _)) (State.tokens_advance (State.tokens_advance ht))
  refine ⟨_, _, run_selectorRound_call _ o link ht rfl rfl rfl rfl hrun,
    (hkept.trans hk).add _ _ _ _, ht', link, links, .add _ _ _ _ _, ?_, ?_⟩
  · exact hst.mono ((hkept.trans hk).add _ _ _ _).tree
  · exact hst'.mono (.add _ _ _ _ _)

theorem readable_index {place : Expression} (hp : place.fits) (hplace : Readable input place) :
    Readable input (index e place) := by
  refine of_selector (by simp [fits, he, hl, hp]) (Nat.le_refl _) rfl ?_ hl
    (Nat.le_max_left _ _) h ?_
  · exact fun _ _ hk => by cases hk
  intro s start rest o link hs ht hq hst
  rw [spaced_single, spaced_append, List.cons_append, List.append_assoc] at ht
  have hkept := (State.Kept.refl s).advance
  have hbehind := State.tokens_advance ht
  obtain ⟨p, s', hrun, hk, ht', hst'⟩ := hplace.expression s.advance _ _
    (hs.after hkept (Nat.le_max_right _ _)) hbehind (.of_isCloser rfl)
  have hclose : headKind s'.tokens = .mark .closeBracket := headKind_of_cons ht'
  have hopen := (headKind_ne_of_fits hp hbehind).2.1
  rw [hbehind] at hopen
  have hall := (hkept.trans hk).advance
  refine ⟨_, _, run_selectorRound_index _ o link ht rfl hopen hrun hclose, hall.add _ _ _ _,
    State.tokens_advance ht', link, p, .add _ _ _ _ _, hst.mono (hall.add _ _ _ _).tree, ?_⟩
  exact hst'.mono ((State.Kept.refl s').advance.add _ _ _ _).tree

theorem readable_trail (operator : TrailingOperator) : Readable input (trail operator e) := by
  refine of_selector (by simp [fits, he, hl]) (Nat.le_refl _) rfl ?_ hl (Nat.le_refl _) h ?_
  · intro _ _ hk
    cases operator <;> cases hk
  intro s start rest o link hs ht hq hst
  have hkept := (State.Kept.refl s).advance
  refine ⟨_, _, run_selectorRound_trail _ o link ht operator rfl, hkept.add _ _ _ _,
    State.tokens_advance ht, link, ?_, hst.mono (hkept.add _ _ _ _).tree⟩
  exact .of_add (by simp) _ _ _ _

end

/-! ## Operators -/

theorem readable_lead (operator : LeadingOperator) {e : Expression} (hl : leadingLevel ≤ e.level)
    (h : Readable input e) : Readable input (lead operator e) := by
  refine of_unary rfl fun s start rest hs ht hq => ?_
  rw [words, spaced_single, List.cons_append] at ht
  have hkept := (State.Kept.refl s.enter).advance
  have hbehind : s.enter.advance.tokens = _ := State.tokens_advance ht
  obtain ⟨o, s', hrun, hk, ht', hst⟩ := h.unary hl s.enter.advance _ rest
    (hs.enter.after hkept (Nat.le_refl _)) hbehind hq
  have hhead : headKind s.tokens = .mark operator.mark := headKind_of_cons ht
  refine ⟨_, _, (run_readers hs.bound _).trans (run_unary_lead hs _ _ operator hhead hrun),
    ((hkept.trans hk).add _ _ _ _).leave, ht', o, .add _ _ _ _ _, hst.mono (.add _ _ _ _ _)⟩

theorem readable_binary (operator : BinaryOperator) {l r : Expression} (hr : r.fits)
    (hll : operator.precedence ≤ l.level) (hrl : operator.precedence < r.level)
    (hleft : Readable input l) (hright : Readable input r) :
    Readable input (binary operator l r) := by
  have hpos : 0 < operator.precedence := by cases operator <;> decide
  refine of_binary hpos (precedence_lt operator) fun floor hf s start rest hs ht hq => ?_
  rw [words, spaced_append, spaced_operator, List.append_assoc, List.append_assoc] at ht
  -- the right operand starts with nothing that would join with the operator
  have hapart (next : Nat) : Apart (spaced next r.words ++ rest) :=
    .of_starts (startsExpression_spaced r hr next rest)
  obtain ⟨left, s', hrun, hk, ht', hst⟩ := hleft.binary floor (Nat.lt_of_lt_of_le hf hll) s start _
    (hs.mono (Nat.succ_le_succ (Nat.le_max_left _ _))) ht
    ((Bounded.of_binary (hapart _) operator).mono hll)
  -- what is left of the loop that has read the left operand makes one more round
  have hs' := hs.after hk (Nat.le_refl _)
  have hkept := (State.Kept.refl s').advanceBy operator.marks.length
  have hoperator : binaryOperator? s'.tokens =
      some ⟨operator.spelling, operator.precedence, operator.marks.length⟩ := by
    rw [ht']
    exact binaryOperator?_tokens _ (hapart _) operator
  have hbehind := State.tokens_advanceBy_operator ht'
  obtain ⟨right, s'', hrun', hk', ht'', hst'⟩ :=
    (hright.binary operator.precedence hrl).operand (Nat.le_of_lt hrl) _ _ rest
      (hs'.after hkept (Nat.succ_le_succ (Nat.le_max_right _ _))) hbehind hq
  have hround := run_operatorRound input.readers floor (s.offset input) left hoperator hf
    (by cases operator <;> decide) hrun'
  have hall := (hkept.trans hk').add .binary (s.offset input) (max s''.lastStop (s.offset input))
    (.binary left operator.spelling right)
  refine ⟨_, _, hrun.trans (Input.operate_again hs'.bound hround), hk.trans hall, ht'', left, right,
    .add _ _ _ _ _, hst.mono hall.tree, hst'.mono (.add _ _ _ _ _)⟩

/-! ## Conditionals and assignments -/

theorem readable_conditional {c t f : Expression} (hl : 0 < c.level) (hc : Readable input c)
    (ht : Readable input t) (hf : Readable input f) : Readable input (conditional c t f) := by
  refine of_expression rfl fun s start rest hs hts hq => ?_
  rw [words, spaced_append, spaced_single, spaced_append, spaced_single, List.append_assoc,
    List.cons_append, List.append_assoc] at hts
  simp only [nesting] at hs
  obtain ⟨condition, s₁, hrun₁, hk₁, ht₁, hst₁⟩ := (hc.binary 0 hl).operand (Nat.zero_le _) s.enter
    start _ (hs.enter.mono (by omega)) hts (.of_question rfl)
  have hkept₁ := hk₁.advance
  obtain ⟨whenTrue, s₂, hrun₂, hk₂, ht₂, hst₂⟩ := ht.expression s₁.advance _ _
    (hs.enter.after hkept₁ (by omega)) (State.tokens_advance ht₁) (.of_isCloser rfl)
  have hkept₂ := (State.Kept.refl s₂).advance
  obtain ⟨whenFalse, s₃, hrun₃, hk₃, ht₃, hst₃⟩ := hf.expression s₂.advance _ rest
    (hs.enter.after ((hkept₁.trans hk₂).trans hkept₂) (by omega)) (State.tokens_advance ht₂) hq
  have hquestion : headKind s₁.tokens = .mark .question := headKind_of_cons ht₁
  have hcolon : headKind s₂.tokens = .mark .colon := headKind_of_cons ht₂
  have hconditional := run_conditional hrun₁ hst₁.isSome hquestion hrun₂ hcolon hrun₃
  have hlast := (hkept₂.trans hk₃).add .conditional (s.enter.offset input)
    (max s₃.lastStop (s.enter.offset input)) (.conditional condition whenTrue whenFalse)
  have hmiddle := hk₂.trans hlast
  refine ⟨_, _, (run_readers hs.bound _).trans
    (run_expression_of_conditional hs hconditional (ht₃ ▸ hq.assignment)),
    (hkept₁.trans hmiddle).leave, ht₃, condition, whenTrue, whenFalse, .add _ _ _ _ _, ?_, ?_, ?_⟩
  · exact hst₁.mono (((State.Kept.refl s₁).advance.trans hmiddle).tree)
  · exact hst₂.mono hlast.tree
  · exact hst₃.mono (.add _ _ _ _ _)

theorem readable_assignment (operator : AssignmentOperator) {l r : Expression} (hl : 0 < l.level)
    (hleft : Readable input l) (hright : Readable input r) :
    Readable input (assignment operator l r) := by
  refine of_expression rfl fun s start rest hs ht hq => ?_
  rw [words, spaced_append, spaced_operator, List.append_assoc, List.append_assoc] at ht
  simp only [nesting] at hs
  obtain ⟨left, s', hrun, hk, ht', hst⟩ := (hleft.binary 0 hl).operand (Nat.zero_le _) s.enter
    start _ (hs.enter.mono (by omega)) ht (.of_assignment _ _ operator)
  have hkept := (State.Kept.refl s').advanceBy operator.marks.length
  have hbehind := State.tokens_advanceBy_operator ht'
  obtain ⟨right, s'', hrun', hk', ht'', hst'⟩ := hright.expression _ _ rest
    (hs.enter.after (hk.trans hkept) (by omega)) hbehind hq
  have hquestion : headKind s'.tokens ≠ .mark .question := by
    rw [ht']
    cases operator <;> (intro hk; cases hk)
  have hoperator : assignmentOperator? s'.tokens =
      some (operator.spelling, operator.marks.length) := by
    rw [ht']
    exact assignmentOperator?_tokens _ operator
  have htarget := run_conditional_of_binary hrun hst.isSome hquestion
  have hall := (hkept.trans hk').add .assignment (s.offset input)
    (max s''.lastStop (s.offset input)) (.binary left operator.spelling right)
  refine ⟨_, _, (run_readers hs.bound _).trans
    (run_expression_of_assignment hs htarget hoperator hst.isSome hrun'), (hk.trans hall).leave,
    ht'', left, right, .add _ _ _ _ _, hst.mono hall.tree, hst'.mono (.add _ _ _ _ _)⟩

end JavaNames.Grammar
