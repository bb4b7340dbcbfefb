/-
One step of scanning. A text that begins with a blank is scanned as what stands behind the blank, and a
text that begins with a token as the token and what stands behind it. Blanks and what numbers consist of are
characters of ASCII.
-/
import JavaNames.Token.Scan
import Mathlib

namespace JavaNames.Token

open JavaNames.Text

/-! ## Characters -/

theorem not_isAlpha_of_isDigit {c : Char} (h : c.isDigit) : c.isAlpha = false := by
  simp only [Char.isDigit, Char.isAlpha, Char.isUpper, Char.isLower, Bool.and_eq_true,
    Bool.or_eq_false_iff, Bool.and_eq_false_iff, decide_eq_true_eq, decide_eq_false_iff_not] at h ⊢
  grind

theorem isAscii_of_isSpace {c : Char} (hc : isSpace c) : isAscii c := by
  simp only [isSpace, Bool.or_eq_true, decide_eq_true_eq] at hc
  rcases hc with (((rfl | rfl) | rfl) | rfl) | rfl <;> rfl

theorem isAscii_of_isAlphanum {c : Char} (hc : c.isAlphanum) : isAscii c := by
  simp only [Char.isAlphanum, Char.isAlpha, Char.isUpper, Char.isLower, Char.isDigit, Bool.or_eq_true,
    Bool.and_eq_true, decide_eq_true_eq, ge_iff_le, UInt32.le_iff_toNat_le] at hc
  rw [isAscii, decide_eq_true_eq]
  rcases hc with (⟨-, hc⟩ | ⟨-, hc⟩) | ⟨-, hc⟩ <;> exact Nat.lt_of_le_of_lt hc (by decide)

theorem isAscii_of_isWordChar {c : Char} (hc : isWordChar c) : isAscii c := by
  rw [isWordChar, Bool.or_eq_true, decide_eq_true_eq] at hc
  rcases hc with hc | rfl
  · exact isAscii_of_isAlphanum hc
  · rfl

theorem isAscii_of_isAlpha {c : Char} (hc : c.isAlpha) : isAscii c :=
  isAscii_of_isAlphanum (by rw [Char.isAlphanum, hc, Bool.true_or])

theorem isAscii_of_isDigit {c : Char} (hc : c.isDigit) : isAscii c :=
  isAscii_of_isAlphanum (by rw [Char.isAlphanum, hc, Bool.or_true])

/-! ## Gaps -/

theorem gap_nil : gap [] = ⟨[], [], none⟩ := by
  rw [gap.eq_def]

theorem gap_cons {c : Char} (hc : c ≠ '/') (hs : isSpace c = false) (cs : List Char) :
    gap (c :: cs) = ⟨[], c :: cs, none⟩ := by
  rw [gap.eq_def]
  split
  · rename_i h
    cases h
  · rename_i h
    cases h
    exact absurd rfl hc
  · rename_i h
    cases h
    exact absurd rfl hc
  · rename_i h
    cases h
    simp [hs]

/-- A slash starts a comment in front of a slash or an asterisk only. -/
theorem gap_slash (rest : List Char) (h : ∀ c ∈ rest.head?, c ≠ '/' ∧ c ≠ '*') :
    gap ('/' :: rest) = ⟨[], '/' :: rest, none⟩ := by
  rw [gap.eq_def]
  split
  · rename_i heq
    cases heq
  · rename_i heq
    cases heq
    exact absurd rfl (h '/' rfl).1
  · rename_i heq
    cases heq
    exact absurd rfl (h '*' rfl).2
  · rename_i heq
    cases heq
    rfl

/-- No identifier starts with a gap. -/
theorem gap_of_startsIdentifier {c : Char} (hc : startsIdentifier c) (cs : List Char) :
    gap (c :: cs) = ⟨[], c :: cs, none⟩ := by
  refine gap_cons ?_ (Bool.eq_false_iff.2 fun hs => ?_) cs
  · rintro rfl
    cases hc
  · simp only [isSpace, Bool.or_eq_true, decide_eq_true_eq] at hs
    rcases hs with (((rfl | rfl) | rfl) | rfl) | rfl <;> cases hc

theorem gap_blank {c : Char} (hc : isSpace c) (cs : List Char) :
    gap (c :: cs) = (gap cs).prepend [c] := by
  rw [gap.eq_def]
  split
  · rename_i h
    cases h
  · rename_i h
    cases h
    cases hc
  · rename_i h
    cases h
    cases hc
  · rename_i h
    cases h
    rw [if_pos hc]

/-! ## Tokens -/

/-- A text goes on with the spelling of the mark that it begins with. -/
theorem spelling_of_leading? {c : Char} {rest : List Char} {mark : Mark}
    (h : Mark.leading? (c :: rest) = some mark) :
    c :: rest.take (mark.spelling.toList.length - 1) = mark.spelling.toList := by
  have hprefix : mark.spelling.toList <+: c :: rest := by
    simpa [Mark.leading?] using List.find?_some h
  obtain ⟨n, hn⟩ : ∃ n, mark.spelling.toList.length = n + 1 :=
    Nat.exists_eq_succ_of_ne_zero (by cases mark <;> decide)
  have htake := List.prefix_iff_eq_take.1 hprefix
  rw [hn, List.take_succ_cons] at htake
  rw [hn, htake, Nat.add_sub_cancel]

/-- The end of the file is no token of a text. -/
theorem kind_lexeme_ne (c : Char) (rest : List Char) : (lexeme c rest).kind ≠ .endOfFile := by
  fun_cases lexeme c rest with
  | case1 hc word =>
    unfold wordKind
    split <;> exact nofun
  | _ => exact nofun

/-! ## Scans -/

/-- Behind a gap stands a token, behind the token the scan goes on. -/
theorem scanFrom_cons (file : String) (offset : Nat) {cs rest : List Char} {c : Char}
    (h : (gap cs).rest = c :: rest) :
    scanFrom file offset cs =
      let start := offset + byteCount (gap cs).skipped
      let found := lexeme c rest
      let token : Token :=
        ⟨found.kind, start, start + byteCount found.chars, String.ofList found.chars⟩
      let behind := scanFrom file token.stop found.rest
      ⟨token :: behind.tokens,
        ((gap cs).unclosed.map (unclosedComment file start)).toList ++
          (found.defect.map (defectDiagnostic file token)).toList ++ behind.diagnostics⟩ := by
  fun_cases scanFrom file offset cs with
  | case1 space start unclosed hnil =>
    cases hnil.symm.trans h
  | case2 space start unclosed c' rest' hcons =>
    cases hcons.symm.trans h
    rfl

theorem scanFrom_nil (file : String) (offset : Nat) {cs : List Char} (h : (gap cs).rest = []) :
    scanFrom file offset cs = ⟨[], ((gap cs).unclosed.map
      (unclosedComment file (offset + byteCount (gap cs).skipped))).toList⟩ := by
  fun_cases scanFrom file offset cs with
  | case1 => rfl
  | case2 space start unclosed c' rest' hcons => cases hcons.symm.trans h

theorem scanFrom_end (file : String) (offset : Nat) : scanFrom file offset [] = ⟨[], []⟩ := by
  rw [scanFrom_nil file offset (congrArg Gap.rest gap_nil), gap_nil]
  rfl

theorem scanFrom_blank (file : String) (offset : Nat) {c : Char} (hc : isSpace c)
    (rest : List Char) :
    scanFrom file offset (c :: rest) = scanFrom file (offset + c.utf8Size) rest := by
  have hrest : (gap (c :: rest)).rest = (gap rest).rest := by rw [gap_blank hc]; rfl
  have hoffset : offset + byteCount ((gap rest).prepend [c]).skipped =
      offset + c.utf8Size + byteCount (gap rest).skipped := by
    simp [Nat.add_assoc]
  cases h : (gap rest).rest with
  | nil =>
    rw [scanFrom_nil file offset (hrest.trans h), scanFrom_nil file _ h, gap_blank hc, hoffset]
    rfl
  | cons d cs =>
    rw [scanFrom_cons file offset (hrest.trans h), scanFrom_cons file _ h, gap_blank hc, hoffset]
    rfl

end JavaNames.Token
