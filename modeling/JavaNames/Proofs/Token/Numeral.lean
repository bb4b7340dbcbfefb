/-
Numeric literals. The literals of the language are given by a grammar of their own: integers of four
bases, and decimal and hexadecimal floating numbers. Main statement: a literal that stands where a token
starts is one token, unless a letter stands directly behind its point or its exponent is a signed binary
one without a point in front of it.
-/
import JavaNames.Proofs.Token.Single
import Mathlib

namespace JavaNames.Token

open JavaNames.Text

/-! ## The grammar -/

/-- Digits of a base, perhaps with underscores between them. -/
structure Digits (digit : Char → Bool) (cs : List Char) : Prop where
  inside : ∀ c ∈ cs, digit c ∨ c = '_'
  first : ∃ c ∈ cs.head?, digit c
  last : ∃ c ∈ cs.getLast?, digit c

def isBinaryDigit (c : Char) : Bool := c = '0' || c = '1'

def isOctalDigit (c : Char) : Bool := '0' ≤ c && c ≤ '7'

def isHexDigit (c : Char) : Bool := c.isDigit || ('a' ≤ c && c ≤ 'f') || ('A' ≤ c && c ≤ 'F')

/-- An integer with the mark of its base. -/
inductive Integer : List Char → Prop
  | zero : Integer ['0']
  | decimal {ds : List Char} : Digits Char.isDigit ds → ds.head? ≠ some '0' → Integer ds
  | octal {ds : List Char} : Digits isOctalDigit ('0' :: ds) → ds ≠ [] → Integer ('0' :: ds)
  | hexadecimal {x : Char} {ds : List Char} : x ∈ ['x', 'X'] → Digits isHexDigit ds →
    Integer ('0' :: x :: ds)
  | binary {b : Char} {ds : List Char} : b ∈ ['b', 'B'] → Digits isBinaryDigit ds →
    Integer ('0' :: b :: ds)

/-- Digits with or without a point. -/
inductive Significand (digit : Char → Bool) : List Char → Prop
  | whole {ds : List Char} : Digits digit ds → Significand digit ds
  | point {whole fraction : List Char} : whole = [] ∨ Digits digit whole →
    fraction = [] ∨ Digits digit fraction → whole ≠ [] ∨ fraction ≠ [] →
    Significand digit (whole ++ '.' :: fraction)

/-- An exponent with its mark and perhaps a sign. -/
inductive Exponent (marks : List Char) : List Char → Prop
  | mk {mark : Char} {sign ds : List Char} : mark ∈ marks → sign ∈ [[], ['+'], ['-']] →
    Digits Char.isDigit ds → Exponent marks (mark :: (sign ++ ds))

/-- The suffixes of floating literals. -/
def floatSuffixes : List (List Char) := [[], ['f'], ['F'], ['d'], ['D']]

/-- The numeric literals. A decimal floating literal has a point, an exponent or a suffix; the exponent of
a hexadecimal one is not left out. -/
inductive NumericLiteral : List Char → Prop
  | integer {digits suffix : List Char} : Integer digits → suffix ∈ [[], ['l'], ['L']] →
    NumericLiteral (digits ++ suffix)
  | decimal {significand exponent suffix : List Char} : Significand Char.isDigit significand →
    exponent = [] ∨ Exponent ['e', 'E'] exponent → suffix ∈ floatSuffixes →
    '.' ∈ significand ∨ exponent ≠ [] ∨ suffix ≠ [] →
    NumericLiteral (significand ++ (exponent ++ suffix))
  | hexadecimal {x : Char} {significand exponent suffix : List Char} : x ∈ ['x', 'X'] →
    Significand isHexDigit significand → Exponent ['p', 'P'] exponent → suffix ∈ floatSuffixes →
    NumericLiteral ('0' :: x :: (significand ++ (exponent ++ suffix)))

/-- A letter stands directly behind a point, as the name of a member does. -/
def PointBeforeLetter (cs : List Char) : Prop := ∃ c ∈ cs, c.isAlpha ∧ ['.', c] <:+: cs

/-- A binary exponent has a sign, and there is no point. -/
def SignWithoutPoint (cs : List Char) : Prop :=
  '.' ∉ cs ∧ ∃ mark ∈ ['p', 'P'], ∃ sign ∈ ['+', '-'], [mark, sign] <:+: cs

/-! ## Characters -/

theorem isWordChar_of_isHexDigit {c : Char} (h : isHexDigit c) : isWordChar c := by
  simp only [isHexDigit, isWordChar, Char.isAlphanum, Char.isAlpha, Char.isUpper, Char.isLower,
    Char.isDigit, Bool.or_eq_true, Bool.and_eq_true, decide_eq_true_eq, Char.le_def] at h ⊢
  grind

theorem isHexDigit_of_isDigit {c : Char} (h : c.isDigit) : isHexDigit c := by
  simp [isHexDigit, h]

theorem isDigit_of_isOctalDigit {c : Char} (h : isOctalDigit c) : c.isDigit := by
  simp only [isOctalDigit, Char.isDigit, Bool.and_eq_true, decide_eq_true_eq, Char.le_def] at h ⊢
  grind

theorem isDigit_of_isBinaryDigit {c : Char} (h : isBinaryDigit c) : c.isDigit := by
  simp only [isBinaryDigit, Bool.or_eq_true, decide_eq_true_eq] at h
  rcases h with rfl | rfl <;> decide

/-- No number starts as an identifier does. -/
theorem not_startsIdentifier {c : Char} (h : c.isDigit ∨ c = '.') : startsIdentifier c = false := by
  rcases h with h | rfl
  · have hne : c ≠ '_' ∧ c ≠ '$' := by
      constructor <;> rintro rfl <;> revert h <;> decide
    simp [startsIdentifier, isAscii_of_isDigit h, hne, not_isAlpha_of_isDigit h]
  · decide

namespace Digits

variable {digit : Char → Bool} {cs : List Char}

/-- The digits of a smaller base are digits of a larger one. -/
theorem mono {digit' : Char → Bool} (h : Digits digit cs) (hd : ∀ {c}, digit c → digit' c) :
    Digits digit' cs where
  inside c hc := (h.inside c hc).imp_left hd
  first := let ⟨c, hc, hf⟩ := h.first; ⟨c, hc, hd hf⟩
  last := let ⟨c, hc, hl⟩ := h.last; ⟨c, hc, hd hl⟩

/-- One digit. -/
theorem singleton {c : Char} (hc : digit c) : Digits digit [c] where
  inside := List.forall_mem_singleton.2 (.inl hc)
  first := ⟨c, rfl, hc⟩
  last := ⟨c, rfl, hc⟩

end Digits

theorem Digits.isWordChar {cs : List Char} (h : Digits isHexDigit cs) :
    ∀ c ∈ cs, isWordChar c := by
  intro c hc
  rcases h.inside c hc with hd | rfl
  · exact isWordChar_of_isHexDigit hd
  · decide

/-- No mark of a base and no point stands among digits. -/
theorem Digits.ne {cs : List Char} (h : Digits isHexDigit cs) :
    ∀ c ∈ cs, c ≠ 'x' ∧ c ≠ 'X' ∧ c ≠ '.' := by
  intro c hc
  rcases h.inside c hc with hd | rfl
  · refine ⟨?_, ?_, ?_⟩ <;> rintro rfl <;> revert hd <;> decide
  · decide

/-- The last character of decimal digits is no mark of an exponent. -/
theorem Digits.not_opensExponent {cs : List Char} (h : Digits Char.isDigit cs) (run : List Char) :
    opensExponent (cs.reverse ++ run) = false := by
  obtain ⟨c, hc, hd⟩ := h.last
  obtain ⟨front, rfl⟩ := List.getLast?_eq_some_iff.1 hc
  have hne : c ≠ 'e' ∧ c ≠ 'E' ∧ c ≠ 'p' ∧ c ≠ 'P' := by
    refine ⟨?_, ?_, ?_, ?_⟩ <;> rintro rfl <;> revert hd <;> decide
  simp [opensExponent, hne]

/-- Without a mark of the base a run does not begin as a hexadecimal number. -/
theorem not_opensHex {run : List Char} (h : ∀ c ∈ run, c ≠ 'x' ∧ c ≠ 'X') : opensHex run = false := by
  unfold opensHex
  split
  · rename_i x _ hrun
    have hx : x ∈ run := by
      rw [← List.mem_reverse, hrun]
      simp
    simp [h x hx]
  · rfl

/-- A sign behind a hexadecimal number is no part of it. -/
theorem not_opensExponent_of_opensHex {run : List Char} (h : opensHex run) :
    opensExponent run = false := by
  cases run with
  | nil => rfl
  | cons c run => simp [opensExponent, h]

/-! ## Reading -/

/-- A number goes on over characters: from a run of word characters, last first, to another one. -/
inductive GoesOn : List Char → List Char → List Char → Prop
  | nil {run : List Char} : GoesOn run [] run
  | word {run cs run' : List Char} {c : Char} : isWordChar c → GoesOn (c :: run) cs run' →
    GoesOn run (c :: cs) run'
  | point {run cs run' : List Char} : GoesOn [] cs run' → GoesOn run ('.' :: cs) run'
  | sign {run cs run' : List Char} {c : Char} : c ∈ ['+', '-'] → opensExponent run →
    GoesOn [] cs run' → GoesOn run (c :: cs) run'

theorem GoesOn.append {run run' run'' cs cs' : List Char} (h : GoesOn run cs run')
    (h' : GoesOn run' cs' run'') : GoesOn run (cs ++ cs') run'' := by
  induction h with
  | nil => exact h'
  | word hc _ ih => exact .word hc (ih h')
  | point _ ih => exact .point (ih h')
  | sign hc ho _ ih => exact .sign hc ho (ih h')

theorem goesOn_words {cs : List Char} (h : ∀ c ∈ cs, isWordChar c) (run : List Char) :
    GoesOn run cs (cs.reverse ++ run) := by
  induction cs generalizing run with
  | nil => exact .nil
  | cons c cs ih =>
    obtain ⟨hc, h⟩ := List.forall_mem_cons.1 h
    rw [List.reverse_cons, List.append_assoc]
    exact .word hc (ih h (c :: run))

theorem PointBeforeLetter.cons {cs : List Char} (h : PointBeforeLetter cs) (c : Char) :
    PointBeforeLetter (c :: cs) := by
  obtain ⟨d, hd, ha, hin⟩ := h
  exact ⟨d, List.mem_cons_of_mem c hd, ha, List.infix_cons hin⟩

/-- What a number goes on over is read as the number, up to what cannot belong to it. -/
theorem GoesOn.splitNumber {run cs run' behind : List Char} (h : GoesOn run cs run')
    (hpoint : ¬PointBeforeLetter cs) (hend : opensExponent run' = false)
    (hbehind : ∀ c ∈ behind.head?, isWordChar c = false ∧ c ≠ '.') :
    splitNumber run (cs ++ behind) = (cs, behind) := by
  induction h with
  | nil =>
    cases behind with
    | nil => rfl
    | cons c behind =>
      obtain ⟨hw, hp⟩ := hbehind c rfl
      simp [Token.splitNumber, hw, hp, hend]
  | word hc _ ih =>
    rw [List.cons_append, Token.splitNumber, if_pos hc, ih (mt (·.cons _) hpoint) hend]
  | @point run cs run' _ ih =>
    have hhead : (cs ++ behind).head?.any Char.isAlpha = false := by
      cases cs with
      | nil =>
        cases behind with
        | nil => rfl
        | cons c behind =>
          have hw := (hbehind c rfl).1
          simp only [isWordChar, Char.isAlphanum, Bool.or_eq_false_iff] at hw
          exact hw.1.1
      | cons c cs =>
        exact Bool.eq_false_iff.2 fun hc => hpoint ⟨c, by simp, hc, ⟨[], cs, rfl⟩⟩
    rw [List.cons_append, Token.splitNumber, if_neg (by decide), if_pos (by rw [hhead]; rfl),
      ih (mt (·.cons _) hpoint) hend]
  | @sign run cs run' c hc ho _ ih =>
    have hw : ¬isWordChar c := by
      simp only [List.mem_cons, List.not_mem_nil, or_false] at hc
      rcases hc with rfl | rfl <;> decide
    have hp : c ≠ '.' := by
      rintro rfl
      revert hc
      decide
    rw [List.cons_append, Token.splitNumber, if_neg hw, if_neg (by simp [hp]),
      if_pos (by simpa [ho] using hc), ih (mt (·.cons _) hpoint) hend]

/-! ## Reading literals -/

/-- A number goes on over an exponent; over its sign only where the run before it does not begin as a
hexadecimal number does. -/
theorem Exponent.goesOn {marks exponent run : List Char} (h : Exponent marks exponent)
    (hm : marks ⊆ ['e', 'E', 'p', 'P'])
    (hrun : (∀ c ∈ run, c ≠ 'x' ∧ c ≠ 'X') ∨ '+' ∉ exponent ∧ '-' ∉ exponent) :
    ∃ run', GoesOn run exponent run' ∧ opensExponent run' = false := by
  obtain @⟨mark, sign, ds, hmark, hsign, hds⟩ := h
  replace hmark := hm hmark
  have hword : Token.isWordChar mark := by
    simp only [List.mem_cons, List.not_mem_nil, or_false] at hmark
    rcases hmark with rfl | rfl | rfl | rfl <;> decide
  have hdigits := (hds.mono isHexDigit_of_isDigit).isWordChar
  by_cases hnone : sign = []
  · subst hnone
    exact ⟨_, .word hword (goesOn_words hdigits _), hds.not_opensExponent _⟩
  · obtain ⟨s, hs, rfl⟩ : ∃ s ∈ ['+', '-'], sign = [s] := by
      simpa [hnone] using hsign
    have hrun' : ∀ c ∈ mark :: run, c ≠ 'x' ∧ c ≠ 'X' := by
      refine List.forall_mem_cons.2 ⟨?_, hrun.resolve_right ?_⟩
      · constructor <;> rintro rfl <;> revert hmark <;> decide
      · simp only [List.mem_cons, List.not_mem_nil, or_false] at hs
        rcases hs with rfl | rfl <;> simp
    have hopens : opensExponent (mark :: run) := by
      simpa [opensExponent, not_opensHex hrun', or_assoc] using hmark
    have hgoes := GoesOn.word hword (.sign hs hopens (goesOn_words hdigits []))
    exact ⟨_, hgoes, hds.not_opensExponent []⟩

/-- A number goes on over the suffix of a literal, and no sign belongs to it behind that. -/
theorem goesOn_suffix {run suffix : List Char} (hrun : opensExponent run = false)
    (hs : suffix ∈ [[], ['l'], ['L']] ∨ suffix ∈ floatSuffixes) :
    ∃ run', GoesOn run suffix run' ∧ opensExponent run' = false := by
  by_cases hnone : suffix = []
  · subst hnone
    exact ⟨run, .nil, hrun⟩
  · obtain ⟨c, hc, rfl⟩ : ∃ c ∈ ['l', 'L', 'f', 'F', 'd', 'D'], suffix = [c] := by
      simp only [floatSuffixes, List.mem_cons, List.not_mem_nil, or_false, hnone, false_or] at hs
      rcases hs with (rfl | rfl) | rfl | rfl | rfl | rfl <;> simp
    simp only [List.mem_cons, List.not_mem_nil, or_false] at hc
    refine ⟨c :: run, .word ?_ .nil, ?_⟩
    · rcases hc with rfl | rfl | rfl | rfl | rfl | rfl <;> decide
    · rcases hc with rfl | rfl | rfl | rfl | rfl | rfl <;> simp [opensExponent]

theorem Integer.goesOn {cs : List Char} (h : Integer cs) :
    GoesOn [] cs cs.reverse ∧ opensExponent cs.reverse = false := by
  suffices hcs : (∀ c ∈ cs, Token.isWordChar c) ∧ opensExponent cs.reverse = false by
    have hgoes := goesOn_words hcs.1 []
    rw [List.append_nil] at hgoes
    exact ⟨hgoes, hcs.2⟩
  have hdecimal : ∀ front {ds}, (∀ c ∈ front, Token.isWordChar c) → Digits Char.isDigit ds →
      (∀ c ∈ front ++ ds, Token.isWordChar c) ∧ opensExponent (front ++ ds).reverse = false := by
    intro front ds hfront hds
    refine ⟨fun c hc => ?_, ?_⟩
    · exact (List.mem_append.1 hc).elim (hfront c) ((hds.mono isHexDigit_of_isDigit).isWordChar c)
    · rw [List.reverse_append]
      exact hds.not_opensExponent _
  cases h with
  | zero => exact ⟨List.forall_mem_singleton.2 rfl, rfl⟩
  | decimal hds _ => exact hdecimal [] nofun hds
  | octal hds _ => exact hdecimal [] nofun (hds.mono isDigit_of_isOctalDigit)
  | @hexadecimal x ds hx hds =>
    simp only [List.mem_cons, List.not_mem_nil, or_false] at hx
    refine ⟨List.forall_mem_cons.2 ⟨by decide, List.forall_mem_cons.2 ⟨?_, hds.isWordChar⟩⟩, ?_⟩
    · rcases hx with rfl | rfl <;> decide
    -- the last digit may be an `e`, but a sign behind it is an operator
    · apply not_opensExponent_of_opensHex
      simpa [opensHex] using hx
  | @binary b ds hb hds =>
    refine hdecimal ['0', b] ?_ (hds.mono isDigit_of_isBinaryDigit)
    simp only [List.mem_cons, List.not_mem_nil, or_false] at hb
    refine List.forall_mem_cons.2 ⟨rfl, List.forall_mem_singleton.2 ?_⟩
    rcases hb with rfl | rfl <;> rfl

/-- A number goes on over a significand. The run behind it is that of the digits behind the point, or
of all that was read where there is no point. -/
theorem Significand.goesOn {digit : Char → Bool} {cs : List Char} (h : Significand digit cs)
    (hd : ∀ {c}, digit c → isHexDigit c) (run : List Char) :
    (Digits digit cs ∧ GoesOn run cs (cs.reverse ++ run)) ∨
      ∃ fraction, (fraction = [] ∨ Digits digit fraction) ∧ '.' ∈ cs ∧
        GoesOn run cs fraction.reverse := by
  have hword : ∀ {ds}, ds = [] ∨ Digits digit ds → ∀ c ∈ ds, Token.isWordChar c := by
    rintro ds (rfl | hds)
    · exact nofun
    · exact (hds.mono hd).isWordChar
  cases h with
  | whole hds => exact .inl ⟨hds, goesOn_words (hword (.inr hds)) run⟩
  | @point whole fraction hw hf _ =>
    have hfraction := goesOn_words (hword hf) []
    rw [List.append_nil] at hfraction
    exact .inr ⟨fraction, hf, by simp, (goesOn_words (hword hw) run).append (.point hfraction)⟩

/-- Digits hold no mark of a base. -/
theorem ne_of_digits {ds : List Char} (h : ds = [] ∨ Digits isHexDigit ds) :
    ∀ c ∈ ds.reverse, c ≠ 'x' ∧ c ≠ 'X' := by
  intro c hc
  rw [List.mem_reverse] at hc
  rcases h with rfl | h
  · cases hc
  · exact ⟨(h.ne c hc).1, (h.ne c hc).2.1⟩

theorem Exponent.point_not_mem {exponent : List Char} (h : Exponent ['p', 'P'] exponent) :
    '.' ∉ exponent := by
  obtain ⟨hmark, hsign, hds⟩ := h
  intro hp
  simp only [List.mem_cons, List.mem_append] at hp
  rcases hp with rfl | hp | hp
  · revert hmark
    decide
  · simp only [List.mem_cons, List.not_mem_nil, or_false] at hsign
    rcases hsign with rfl | rfl | rfl <;> revert hp <;> decide
  · exact ((hds.mono isHexDigit_of_isDigit).ne _ hp).2.2 rfl

theorem point_not_mem_of_floatSuffixes {suffix : List Char} (h : suffix ∈ floatSuffixes) :
    '.' ∉ suffix := by
  simp only [floatSuffixes, List.mem_cons, List.not_mem_nil, or_false] at h
  rcases h with rfl | rfl | rfl | rfl | rfl <;> decide

/-- Without a point the exponent of a hexadecimal literal has no sign, unless it is one of those that the
reader cuts off. -/
theorem Exponent.unsigned {x : Char} {significand exponent suffix : List Char} (hx : x ∈ ['x', 'X'])
    (hds : Digits isHexDigit significand) (h : Exponent ['p', 'P'] exponent)
    (hsuf : suffix ∈ floatSuffixes)
    (hsign : ¬SignWithoutPoint ('0' :: x :: (significand ++ (exponent ++ suffix)))) :
    '+' ∉ exponent ∧ '-' ∉ exponent := by
  have hpoint : '.' ∉ '0' :: x :: (significand ++ (exponent ++ suffix)) := by
    have hx : '.' ≠ x := by
      rintro rfl
      revert hx
      decide
    have hdigits : '.' ∉ significand := fun hp => (hds.ne _ hp).2.2 rfl
    simp [hx, hdigits, h.point_not_mem, point_not_mem_of_floatSuffixes hsuf]
  obtain @⟨mark, sign, ds, hmark, hs, hexp⟩ := h
  by_cases hnone : sign = []
  · subst hnone
    have hne : ∀ c ∈ mark :: ds, c ≠ '+' ∧ c ≠ '-' := by
      intro c hc
      rcases List.mem_cons.1 hc with rfl | hc
      · constructor <;> rintro rfl <;> revert hmark <;> decide
      · have := (hexp.mono isHexDigit_of_isDigit).isWordChar c hc
        constructor <;> rintro rfl <;> revert this <;> decide
    exact ⟨fun hc => (hne _ hc).1 rfl, fun hc => (hne _ hc).2 rfl⟩
  · obtain ⟨s, hs', rfl⟩ : ∃ s ∈ ['+', '-'], sign = [s] := by
      simpa [hnone] using hs
    refine absurd ⟨hpoint, mark, hmark, s, hs', ?_⟩ hsign
    exact ⟨'0' :: x :: significand, ds ++ suffix, by simp⟩

/-- A number goes on over a whole literal. -/
theorem NumericLiteral.goesOn {cs : List Char} (h : NumericLiteral cs) (hsign : ¬SignWithoutPoint cs) :
    ∃ run, GoesOn [] cs run ∧ opensExponent run = false := by
  cases h with
  | integer hi hs =>
    obtain ⟨hdigits, hend⟩ := hi.goesOn
    obtain ⟨run, hsuffix, hrun⟩ := goesOn_suffix hend (.inl hs)
    exact ⟨run, hdigits.append hsuffix, hrun⟩
  | @decimal significand exponent suffix hsig hexp hsuf _ =>
    obtain ⟨run, hgoes, hne, hend⟩ : ∃ run, GoesOn [] significand run ∧
        (∀ c ∈ run, c ≠ 'x' ∧ c ≠ 'X') ∧ opensExponent run = false := by
      rcases hsig.goesOn isHexDigit_of_isDigit [] with ⟨hds, hgoes⟩ | ⟨fraction, hf, -, hgoes⟩
      · refine ⟨_, hgoes, ?_, hds.not_opensExponent []⟩
        rw [List.append_nil]
        exact ne_of_digits (.inr (hds.mono isHexDigit_of_isDigit))
      · refine ⟨_, hgoes, ne_of_digits (hf.imp_right (·.mono isHexDigit_of_isDigit)), ?_⟩
        rcases hf with rfl | hf
        · rfl
        · simpa using hf.not_opensExponent []
    obtain ⟨run', hexponent, hend'⟩ : ∃ run', GoesOn run exponent run' ∧
        opensExponent run' = false := by
      rcases hexp with rfl | hexp
      · exact ⟨run, .nil, hend⟩
      · exact hexp.goesOn (by simp) (.inl hne)
    obtain ⟨run'', hsuffix, hend''⟩ := goesOn_suffix hend' (.inr hsuf)
    exact ⟨run'', hgoes.append (hexponent.append hsuffix), hend''⟩
  | @hexadecimal x significand exponent suffix hx hsig hexp hsuf =>
    obtain ⟨run, hgoes, hne⟩ : ∃ run, GoesOn [x, '0'] significand run ∧
        ((∀ c ∈ run, c ≠ 'x' ∧ c ≠ 'X') ∨ '+' ∉ exponent ∧ '-' ∉ exponent) := by
      rcases hsig.goesOn id [x, '0'] with ⟨hds, hgoes⟩ | ⟨fraction, hf, -, hgoes⟩
      · exact ⟨_, hgoes, .inr (hexp.unsigned hx hds hsuf hsign)⟩
      · exact ⟨_, hgoes, .inl (ne_of_digits hf)⟩
    obtain ⟨run', hexponent, hend⟩ := hexp.goesOn (by simp) hne
    obtain ⟨run'', hsuffix, hend'⟩ := goesOn_suffix hend (.inr hsuf)
    refine ⟨run'', .word (by decide) (.word ?_ (hgoes.append (hexponent.append hsuffix))), hend'⟩
    simp only [List.mem_cons, List.not_mem_nil, or_false] at hx
    rcases hx with rfl | rfl <;> decide

/-! ## Literals in a text -/

/-- A literal begins with a digit, or with a point and a digit. -/
theorem NumericLiteral.first {cs : List Char} (h : NumericLiteral cs) :
    ∃ c rest, cs = c :: rest ∧ (c.isDigit || (c = '.' && rest.head?.any Char.isDigit)) := by
  have hdigits : ∀ {ds}, Digits Char.isDigit ds → ∀ more,
      ∃ c rest, ds ++ more = c :: rest ∧ c.isDigit := by
    intro ds hds more
    obtain ⟨c, hc, hd⟩ := hds.first
    obtain ⟨rest, rfl⟩ := List.head?_eq_some_iff.1 hc
    exact ⟨c, rest ++ more, rfl, hd⟩
  cases h with
  | integer hi _ =>
    cases hi with
    | decimal hds _ =>
      obtain ⟨c, rest, hcs, hc⟩ := hdigits hds _
      exact ⟨c, rest, hcs, by simp [hc]⟩
    | zero | octal | hexadecimal | binary => exact ⟨'0', _, rfl, rfl⟩
  | @decimal significand exponent suffix hsig _ _ _ =>
    cases hsig with
    | whole hds =>
      obtain ⟨c, rest, hcs, hc⟩ := hdigits hds _
      exact ⟨c, rest, hcs, by simp [hc]⟩
    | @point whole fraction hw hf hne =>
      rw [List.append_assoc]
      rcases hw with rfl | hw
      · have hfraction := hf.resolve_left (hne.resolve_left (by simp))
        obtain ⟨c, rest, hcs, hc⟩ := hdigits hfraction (exponent ++ suffix)
        exact ⟨'.', _, rfl, by simp [hcs, hc]⟩
      · obtain ⟨c, rest, hcs, hc⟩ := hdigits hw _
        exact ⟨c, rest, hcs, by simp [hc]⟩
  | hexadecimal => exact ⟨'0', _, rfl, rfl⟩

/-- A literal is read as a number up to what cannot belong to it. -/
theorem lexeme_numericLiteral {c : Char} {rest behind : List Char} (h : NumericLiteral (c :: rest))
    (hpoint : ¬PointBeforeLetter (c :: rest)) (hsign : ¬SignWithoutPoint (c :: rest))
    (hbehind : ∀ c ∈ behind.head?, isWordChar c = false ∧ c ≠ '.') :
    lexeme c (rest ++ behind) = ⟨.literal .number, c :: rest, behind, none⟩ := by
  have hnumber : c.isDigit || (c = '.' && (rest ++ behind).head?.any Char.isDigit) := by
    obtain ⟨_, _, hcs, hfirst⟩ := h.first
    obtain ⟨rfl, rfl⟩ := List.cons.inj hcs
    simp only [Bool.or_eq_true, Bool.and_eq_true, decide_eq_true_eq] at hfirst ⊢
    refine hfirst.imp_right fun ⟨hc, hd⟩ => ⟨hc, ?_⟩
    cases rest with
    | nil => cases hd
    | cons d rest => exact hd
  have hstarts : startsIdentifier c = false := by
    apply not_startsIdentifier
    simp only [Bool.or_eq_true, Bool.and_eq_true, decide_eq_true_eq] at hnumber
    exact hnumber.imp_right And.left
  obtain ⟨run, hgoes, hend⟩ := h.goesOn hsign
  have hrest : splitNumber (if c = '.' then [] else [c]) (rest ++ behind) = (rest, behind) := by
    have htail : ¬PointBeforeLetter rest := mt (·.cons c) hpoint
    cases hgoes with
    | word hc hgoes =>
      rw [if_neg]
      · exact hgoes.splitNumber htail hend hbehind
      · rintro rfl
        cases hc
    | point hgoes => exact hgoes.splitNumber htail hend hbehind
    | sign _ ho _ => cases ho
  unfold lexeme
  rw [if_neg (by simp [hstarts]), if_pos hnumber]
  simp only [hrest]

/-- A numeric literal that stands where a token starts, with nothing behind it that could belong to it,
is one token. No other token has bytes of it, and nothing is said about it. -/
theorem scan_numericLiteral {file source : String} {before literal behind : List Char}
    (hsource : source.toList = before ++ (literal ++ behind)) (hliteral : NumericLiteral literal)
    (hpoint : ¬PointBeforeLetter literal) (hsign : ¬SignWithoutPoint literal)
    (hbehind : ∀ c ∈ behind.head?, isWordChar c = false ∧ c ≠ '.')
    (hstart : ∃ token ∈ (scan file source).tokens, token.start = byteCount before) :
    ∃ number ∈ (scan file source).tokens,
      number = ⟨.literal .number, byteCount before, byteCount before + byteCount literal,
        String.ofList literal⟩ ∧
      (∀ other ∈ (scan file source).tokens, other.start < number.stop → number.start < other.stop →
        other = number) ∧
      ∀ diagnostic ∈ (scan file source).diagnostics, diagnostic.Misses number := by
  obtain ⟨number, hn, hnumber⟩ := hstart
  obtain ⟨c, rest, rfl, -⟩ := hliteral.first
  rw [List.cons_append] at hsource
  have hlexeme := lexeme_numericLiteral hliteral hpoint hsign hbehind
  obtain ⟨htoken, hmisses⟩ := eq_of_start_eq hn hsource hnumber
  rw [hlexeme] at htoken hmisses
  refine ⟨number, hn, htoken, fun other ho hlt hlt' => ?_, hmisses rfl⟩
  exact (ordered_scan file source).eq_of_overlap hn ho hlt hlt'

/-- A hexadecimal floating literal with a point and a signed exponent, between two operators. -/
theorem scan_numericLiteral_hexadecimal :
    ∃ number ∈ (scan "A.java" "-0xE.8p+1f+2").tokens,
      number = ⟨.literal .number, 1, 10, "0xE.8p+1f"⟩ ∧
      (∀ other ∈ (scan "A.java" "-0xE.8p+1f+2").tokens, other.start < number.stop →
        number.start < other.stop → other = number) ∧
      ∀ diagnostic ∈ (scan "A.java" "-0xE.8p+1f+2").diagnostics, diagnostic.Misses number := by
  have hsource : "-0xE.8p+1f+2".toList =
      ['-'] ++ (['0', 'x', 'E', '.', '8', 'p', '+', '1', 'f'] ++ ['+', '2']) := rfl
  have hwhole : Digits isHexDigit ['E'] := .singleton rfl
  have hfraction : Digits isHexDigit ['8'] := .singleton rfl
  have hone : Digits Char.isDigit ['1'] := .singleton rfl
  have hliteral : NumericLiteral ['0', 'x', 'E', '.', '8', 'p', '+', '1', 'f'] :=
    @NumericLiteral.hexadecimal 'x' ['E', '.', '8'] ['p', '+', '1'] ['f'] (by decide)
      (.point (.inr hwhole) (.inr hfraction) (by decide))
      (@Exponent.mk ['p', 'P'] 'p' ['+'] ['1'] (by decide) (by decide) hone) (by decide)
  have hstart : ∃ token ∈ (scan "A.java" "-0xE.8p+1f+2").tokens, token.start = byteCount ['-'] := by
    decide +kernel
  have hpoint : ¬PointBeforeLetter ['0', 'x', 'E', '.', '8', 'p', '+', '1', 'f'] := by
    rintro ⟨c, -, hletter, hinfix⟩
    obtain rfl : c = '8' := by
      simpa [List.infix_cons_iff] using hinfix
    cases hletter
  have hsign : ¬SignWithoutPoint ['0', 'x', 'E', '.', '8', 'p', '+', '1', 'f'] := by
    rintro ⟨hnone, -⟩
    exact hnone (by simp)
  have hbehind : ∀ c ∈ ['+', '2'].head?, isWordChar c = false ∧ c ≠ '.' := by
    simp [isWordChar]
  exact scan_numericLiteral hsource hliteral hpoint hsign hbehind hstart

/-- A hexadecimal floating literal without a point is cut off in front of the sign of its exponent. -/
theorem scan_signedBinary_ne :
    NumericLiteral ['0', 'x', '1', 'p', '+', '3'] ∧
      (scan "A.java" "0x1p+3").tokens =
        [⟨.literal .number, 0, 4, "0x1p"⟩, ⟨.mark .plus, 4, 5, "+"⟩, ⟨.literal .number, 5, 6, "3"⟩] := by
  have hone : Digits isHexDigit ['1'] := .singleton rfl
  have hthree : Digits Char.isDigit ['3'] := .singleton rfl
  refine ⟨@NumericLiteral.hexadecimal 'x' ['1'] ['p', '+', '3'] [] (by decide) (.whole hone)
    (@Exponent.mk ['p', 'P'] 'p' ['+'] ['3'] (by decide) (by decide) hthree) (by decide), ?_⟩
  decide +kernel

end JavaNames.Token
