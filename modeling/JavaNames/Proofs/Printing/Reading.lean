/-
Written expressions are read as what they are, one lemma for each kind of expression. What binds most
strongly is read by the loop over selectors, what binds less by the loop over operators, and either
loop is described by where it goes on: behind a part of what it reads it stands as if it had started
with the node for that part.
-/
import JavaNames.Proofs.Printing.Steps

namespace JavaNames.Grammar

/-! ## Readers for a file -/

/-- The readers that a file is read with. -/
def Input.readers (input : Input) : Readers := Parse.readersTo (8 * input.budget)

theorem run_readers {input : Input} {s : State} (hb : s.tokens.length < input.budget)
    (nonterminal : Nonterminal) :
    ((input.readers nonterminal).run input).run s =
      ((Parse.rule input.readers nonterminal).run input).run s := by
  have hserve : Serve (8 * input.budget) (Parse.readersTo (8 * input.budget + 1))
      (Parse.readersTo (8 * input.budget)) := serve_readersTo (Nat.le_succ _) (Nat.le_refl _)
  have hrank := nonterminal.rank_le
  exact (hserve nonterminal s.tokens.length (by omega) input input.budget s (Nat.le_refl _) hb hb).1

/-! ## Going on -/

/-- A reader of a written expression comes to the rest behind it, with a node for the expression, and
does there what `next` says. -/
def Reaches (input : Input) (p : Parse Link) (next : Nat → Link → Parse Link) (levels : Nat)
    (Q : List Token → Prop) (expression : Expression) : Prop :=
  ∀ (s : State) (start : Nat) (rest : List Token), Ready input levels s →
    s.tokens = Expression.spaced start expression.words ++ rest → Q rest →
    ∃ link s', (p.run input).run s = ((next (s.offset input) link).run input).run s' ∧ s.Kept s' ∧
      s'.tokens = rest ∧ expression.StandsAt s'.tree link

/-- A reader reads a written expression and stops. -/
abbrev Yields (input : Input) (p : Parse Link) : Nat → (List Token → Prop) → Expression → Prop :=
  Reaches input p fun _ link => pure link

/-- The loop over selectors, from an expression on. -/
def Input.select (input : Input) (start : Nat) (link : Link) : Parse Link :=
  Parse.iterate (Parse.selectorRound input.readers start) link

/-- The loop over operators, from a left operand on. -/
def Input.operate (input : Input) (floor start : Nat) (link : Link) : Parse Link :=
  Parse.iterate (Parse.operatorRound input.readers floor start) link

/-- What is read of a written expression, by how strongly it binds. -/
structure Readable (input : Input) (expression : Expression) : Prop where
  trailing : Expression.trailingLevel ≤ expression.level →
    Reaches input (Parse.trailing input.readers) input.select expression.nesting
      (fun rest => headKind rest ≠ .mark .openParen) expression
  unary : Expression.leadingLevel ≤ expression.level →
    Yields input (input.readers .unary) (expression.nesting + 1)
      (fun rest => goesOn (headKind rest) = false) expression
  binary : ∀ floor < expression.level,
    Reaches input (input.readers (.binary floor)) (input.operate floor) (expression.nesting + 1)
      (Bounded expression.level) expression
  expression : Yields input (input.readers .expression) (expression.nesting + 2) Final expression

/-! ## From one level to the next -/

section

variable {input : Input} {e : Expression}

/-- Where no selector follows, the loop over selectors ends. -/
theorem Reaches.unary (he : e.fits) (hl : Expression.trailingLevel ≤ e.level)
    (h : Reaches input (Parse.trailing input.readers) input.select e.nesting
      (fun rest => headKind rest ≠ .mark .openParen) e) :
    Yields input (input.readers .unary) (e.nesting + 1)
      (fun rest => goesOn (headKind rest) = false) e := by
  intro s start rest hs ht hq
  have hopen : headKind rest ≠ .mark .openParen := by
    intro hk
    rw [hk] at hq
    cases hq
  obtain ⟨link, s', hrun, hk, ht', hst⟩ := h s.enter start rest hs.enter ht hopen
  have hquiet : goesOn (headKind s'.tokens) = false := by rwa [ht']
  have hstop : ((input.select (s.enter.offset input) link).run input).run s' = (link, s') :=
    run_iterate_of_last (Nat.zero_lt_of_lt hs.bound) (run_selectorRound_of_quiet _ _ _ hquiet)
  have hlead : isLeading (headKind s.tokens) = false := by
    rw [ht]
    exact isLeading_of_startsPrimary (startsPrimary_spaced e he hl start rest)
  refine ⟨link, s'.leave, ?_, hk.leave, ht', hst⟩
  rw [run_readers hs.bound]
  exact run_unary_operand hs _ _ hlead (hrun.trans hstop)

/-- An operand starts the loop over operators. -/
theorem Yields.binary (floor : Nat)
    (h : Yields input (input.readers .unary) (e.nesting + 1)
      (fun rest => goesOn (headKind rest) = false) e) :
    Reaches input (input.readers (.binary floor)) (input.operate floor) (e.nesting + 1)
      (Bounded e.level) e := by
  intro s start rest hs ht hq
  obtain ⟨link, s', hrun, hk, ht', hst⟩ := h s start rest hs ht hq.quiet
  refine ⟨link, s', ?_, hk, ht', hst⟩
  rw [run_readers hs.bound]
  exact run_binary _ floor hrun hst.isSome

/-- Where no operator follows that binds strongly enough, the loop over operators ends. -/
theorem Reaches.operand {floor : Nat} (hf : floor ≤ e.level)
    (h : Reaches input (input.readers (.binary floor)) (input.operate floor) (e.nesting + 1)
      (Bounded e.level) e) :
    Yields input (input.readers (.binary floor)) (e.nesting + 1) (Bounded floor) e := by
  intro s start rest hs ht hq
  obtain ⟨link, s', hrun, hk, ht', hst⟩ := h s start rest hs ht (hq.mono hf)
  have hbounded : Bounded floor s'.tokens := by rwa [ht']
  refine ⟨link, s', hrun.trans ?_, hk, ht', hst⟩
  exact run_iterate_of_last (Nat.zero_lt_of_lt hs.bound)
    (run_operatorRound_of_bounded _ _ _ _ hbounded)

/-- Operators alone are an expression. -/
theorem Yields.expression
    (h : Yields input (input.readers (.binary 0)) (e.nesting + 1) (Bounded 0) e) :
    Yields input (input.readers .expression) (e.nesting + 2) Final e := by
  intro s start rest hs ht hq
  obtain ⟨link, s', hrun, hk, ht', hst⟩ := h s.enter start rest hs.enter ht hq.bounded
  refine ⟨link, s'.leave, ?_, hk.leave, ht', hst⟩
  rw [run_readers hs.bound]
  refine run_expression_of_conditional hs ?_ (ht' ▸ hq.assignment)
  exact run_conditional_of_binary hrun hst.isSome (ht' ▸ hq.question)

namespace Readable

theorem of_binary (hpos : 0 < e.level) (hl : e.level < Expression.leadingLevel)
    (h : ∀ floor < e.level, Reaches input (input.readers (.binary floor)) (input.operate floor)
      (e.nesting + 1) (Bounded e.level) e) : Readable input e where
  trailing ht := absurd (Nat.lt_of_lt_of_le hl (Nat.le_succ _)) (Nat.not_lt.2 ht)
  unary ht := absurd hl (Nat.not_lt.2 ht)
  binary := h
  expression := ((h 0 hpos).operand (Nat.zero_le _)).expression

theorem of_unary (hl : e.level = Expression.leadingLevel)
    (h : Yields input (input.readers .unary) (e.nesting + 1)
      (fun rest => goesOn (headKind rest) = false) e) : Readable input e where
  trailing ht := absurd ht (by rw [hl]; decide)
  unary _ := h
  binary floor _ := h.binary floor
  expression := ((h.binary 0).operand (Nat.zero_le _)).expression

theorem of_trailing (he : e.fits) (hl : Expression.trailingLevel ≤ e.level)
    (h : Reaches input (Parse.trailing input.readers) input.select e.nesting
      (fun rest => headKind rest ≠ .mark .openParen) e) : Readable input e where
  trailing _ := h
  unary _ := h.unary he hl
  binary floor _ := (h.unary he hl).binary floor
  expression := (((h.unary he hl).binary 0).operand (Nat.zero_le _)).expression

theorem of_expression (hl : e.level = 0)
    (h : Yields input (input.readers .expression) (e.nesting + 2) Final e) : Readable input e where
  trailing ht := absurd ht (by rw [hl]; decide)
  unary ht := absurd ht (by rw [hl]; decide)
  binary floor hf := absurd hf (by rw [hl]; exact Nat.not_lt_zero _)
  expression := h

end Readable

end

/-! ## Loops -/

section

variable {input : Input} {s s' : State} (hb : s.tokens.length < input.budget)

include hb

theorem Input.select_again {start : Nat} {link link' : Link}
    (h : ((Parse.selectorRound input.readers start link).run input).run s = ((link', true), s')) :
    ((input.select start link).run input).run s = ((input.select start link').run input).run s' :=
  run_iterate_of_again hb
    (fun t link => Forward.selectorRound (serve_self _ (5 * t)) start link (Nat.le_refl _)) h

theorem Input.operate_again {floor start : Nat} {link link' : Link}
    (h : ((Parse.operatorRound input.readers floor start link).run input).run s =
      ((link', true), s')) :
    ((input.operate floor start link).run input).run s =
      ((input.operate floor start link').run input).run s' :=
  run_iterate_of_again hb
    (fun t link => Forward.operatorRound (serve_self _ (5 * t)) floor start link (Nat.le_refl _)) h

theorem collect_again {links links' : List Link}
    (h : ((collectRound input.readers links).run input).run s = ((links', true), s')) :
    ((Parse.iterate (collectRound input.readers) links).run input).run s =
      ((Parse.iterate (collectRound input.readers) links').run input).run s' :=
  run_iterate_of_again hb (fun t links =>
    .seq (Forward.argumentRound (serve_self _ (5 * t + 5)) (by omega)) fun _ _ _ hu => .ret hu) h

end

/-! ## Arguments -/

section

variable {input : Input}

theorem Ready.mono {n m : Nat} {s : State} (h : Ready input n s) (hm : m ≤ n) : Ready input m s :=
  h.after (.refl s) hm

/-- What an expression starts with does not end the list or the brackets around it. -/
theorem headKind_ne_of_fits {e : Expression} (he : e.fits) {tokens rest : List Token} {start : Nat}
    (ht : tokens = Expression.spaced start e.words ++ rest) :
    headKind tokens ≠ .mark .closeParen ∧ headKind tokens ≠ .mark .closeBracket ∧
      headKind tokens ≠ .endOfFile := by
  have hstart := startsExpression_spaced e he start rest
  rw [← ht] at hstart
  refine ⟨?_, ?_, ?_⟩ <;> intro hk <;> rw [hk] at hstart <;> cases hstart

/-- An argument is read with the comma behind it. -/
theorem run_argument {e : Expression} (he : e.fits) (h : Readable input e) {s : State} {start : Nat}
    {rest : List Token} (hs : Ready input (e.nesting + 2) s)
    (ht : s.tokens = Expression.spaced start e.words ++ rest) (hr : isCloser (headKind rest))
    (links : List Link) :
    ∃ link s', ((collectRound input.readers links).run input).run s =
        (if headKind rest = .mark .comma then ((links ++ [link], true), s'.advance)
        else ((links ++ [link], false), s')) ∧
      s.Kept s' ∧ s'.tokens = rest ∧ e.StandsAt s'.tree link := by
  have hstart := headKind_ne_of_fits he ht
  obtain ⟨link, s', hrun, hk, ht', hst⟩ := h.expression s start rest hs ht (.of_isCloser hr)
  refine ⟨link, s', ?_, hk, ht', hst⟩
  rw [run_collectRound links hst.isSome hstart.1 hstart.2.2 hrun, ht']

open Expression in
/-- From an argument on, the arguments are added to those that have been read. -/
theorem run_collect {e : Expression} {others : List Expression}
    (h : ∀ a ∈ e :: others, a.fits ∧ Readable input a) {n : Nat}
    (hn : argumentNesting (e :: others) ≤ n) {s : State} {start : Nat} {rest : List Token}
    (hs : Ready input n s)
    (ht : s.tokens = spaced start (e.words ++ otherWords others) ++ rest) (links : List Link) :
    ∃ more s', ((Parse.iterate (collectRound input.readers) links).run input).run s =
        (links ++ more, s') ∧ s.Kept s' ∧ headKind s'.tokens = .mark .closeParen ∧
      s'.advance.tokens = rest ∧ StandAt s'.tree (e :: others) more := by
  induction others generalizing e s start links with
  | nil =>
    obtain ⟨he, hread⟩ := h e List.mem_cons_self
    rw [argumentNesting, Nat.max_le] at hn
    rw [otherWords, spaced_append, List.append_assoc] at ht
    obtain ⟨link, s', hround, hk, ht', hst⟩ := run_argument he hread (hs.mono hn.1) ht rfl links
    refine ⟨[link], s', run_iterate_of_last (Nat.zero_lt_of_lt hs.bound) hround, hk, ?_, ?_, link,
      [], rfl, hst, rfl⟩
    · exact headKind_of_cons ht'
    · exact State.tokens_advance ht'
  | cons next others ih =>
    obtain ⟨he, hread⟩ := h e List.mem_cons_self
    rw [argumentNesting, Nat.max_le] at hn
    rw [otherWords, spaced_append, spaced_single, List.append_assoc] at ht
    obtain ⟨link, s', hround, hk, ht', hst⟩ := run_argument he hread (hs.mono hn.1) ht rfl links
    obtain ⟨more, s'', hmore, hk', hclose, hrest, hst'⟩ :=
      ih (fun a ha => h a (List.mem_cons_of_mem _ ha)) hn.2 (hs.after hk.advance (Nat.le_refl _))
        (State.tokens_advance ht') (links ++ [link])
    refine ⟨link :: more, s'', ?_, hk.advance.trans hk', hclose, hrest, link, more, rfl, ?_, hst'⟩
    · rw [collect_again hs.bound hround, hmore, List.append_assoc]
      rfl
    · have hextends := hk'.tree
      rw [State.tree_advance] at hextends
      exact hst.mono hextends

open Expression in
theorem run_argumentList {arguments : List Expression}
    (h : ∀ a ∈ arguments, a.fits ∧ Readable input a) {s : State} {start : Nat} {rest : List Token}
    (hs : Ready input (argumentNesting arguments) s)
    (ht : s.tokens = spaced start (ofMark .openParen :: argumentWords arguments) ++ rest) :
    ∃ links s', ((Parse.arguments input.readers).run input).run s = (links, s') ∧ s.Kept s' ∧
      s'.tokens = rest ∧ StandAt s'.tree arguments links := by
  have hopen : headKind s.tokens = .mark .openParen := headKind_of_cons ht
  have hbehind := State.tokens_advance ht
  have hs' := hs.after (State.Kept.refl s).advance (Nat.le_refl _)
  cases arguments with
  | nil =>
    have hclose : headKind s.advance.tokens = .mark .closeParen := headKind_of_cons hbehind
    have hround : ((collectRound input.readers []).run input).run s.advance =
        (([], false), s.advance) := run_collectRound_of_closeParen [] hclose
    refine ⟨[], s.advance.advance, ?_, (State.Kept.refl s).advance.advance, ?_, rfl⟩
    · exact run_arguments hopen (run_iterate_of_last (Nat.zero_lt_of_lt hs.bound) hround) hclose
    · exact State.tokens_advance hbehind
  | cons e others =>
    obtain ⟨links, s', hrun, hk, hclose, hrest, hst⟩ :=
      run_collect h (Nat.le_refl _) hs' hbehind []
    refine ⟨links, s'.advance, run_arguments hopen hrun hclose, ?_, hrest, ?_⟩
    · exact ((State.Kept.refl s).advance.trans hk).advance
    · rwa [State.tree_advance]

end

end JavaNames.Grammar
