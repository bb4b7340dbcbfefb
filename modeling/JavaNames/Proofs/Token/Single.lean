/-
One token of a text. It is the token that the characters at its place begin, and what a scan says about
its bytes is what is wrong with it, if anything is.
-/
import JavaNames.Proofs.Token.Defect

namespace JavaNames

open JavaNames.Text

/-- A diagnostic is about none of the bytes of a token. -/
def Diagnostic.Misses (diagnostic : Diagnostic) (token : Token) : Prop :=
  diagnostic.start + diagnostic.length ≤ token.start ∨ token.stop ≤ diagnostic.start

namespace Token

/-- What is read at an offset, as a token. -/
def Lexeme.token (found : Lexeme) (offset : Nat) : Token :=
  ⟨found.kind, offset, offset + byteCount found.chars, String.ofList found.chars⟩

/-- What is wrong with a token is said about all of its bytes. -/
theorem span_of_mem_defect {file : String} {token : Token} {defect : Option Defect}
    {diagnostic : Diagnostic}
    (h : diagnostic ∈ (defect.map (defectDiagnostic file token)).toList) :
    diagnostic.start = token.start ∧ diagnostic.length = token.stop - token.start := by
  simp only [Option.mem_toList, Option.map_eq_some_iff] at h
  obtain ⟨defect, -, rfl⟩ := h
  exact ⟨start_defectDiagnostic file token defect, length_defectDiagnostic file token defect⟩

/-- What a scan says about a token that is read in front of the others. -/
theorem told_first (file : String) (found : Lexeme) {offset : Nat} {diagnostics : List Diagnostic}
    (hne : found.chars ≠ [])
    (hbehind : ∀ diagnostic ∈ diagnostics, (found.token offset).stop ≤ diagnostic.start) :
    ((found.defect.map (defectDiagnostic file (found.token offset))).toList ++ diagnostics).filter
        (·.start = offset) =
      (found.defect.map (defectDiagnostic file (found.token offset))).toList := by
  have hlt : offset < (found.token offset).stop := Nat.lt_add_of_pos_right (byteCount_pos hne)
  have hnone : diagnostics.filter (·.start = offset) = [] := by
    apply List.filter_eq_nil_iff.2
    intro diagnostic hd
    have := hbehind diagnostic hd
    simp only [decide_eq_true_eq]
    omega
  rw [List.filter_append, hnone, List.append_nil, List.filter_eq_self]
  intro diagnostic hd
  exact decide_eq_true (span_of_mem_defect hd).1

/-- Each token of a scan is what the characters at its place begin. The diagnostics that start at it
are the one for its defect, and where it has none, no diagnostic is about any of its bytes. -/
theorem exists_lexeme_scanFrom (file : String) (offset : Nat) (cs : List Char) :
    ∀ token ∈ (scanFrom file offset cs).tokens, ∃ before c rest, cs = before ++ c :: rest ∧
      token = (lexeme c rest).token (offset + byteCount before) ∧
      (scanFrom file offset cs).diagnostics.filter (·.start = token.start) =
        ((lexeme c rest).defect.map (defectDiagnostic file token)).toList ∧
      ((lexeme c rest).defect = none →
        ∀ diagnostic ∈ (scanFrom file offset cs).diagnostics, diagnostic.Misses token) := by
  fun_induction scanFrom file offset cs with
  | case1 => exact fun _ hm => absurd hm List.not_mem_nil
  | case2 offset cs space start unclosed c rest hrest found first behind ih =>
    have hcs : space.skipped ++ found.chars ++ found.rest = cs := by
      rw [List.append_assoc, lexeme_append, ← hrest, gap_append]
    have hunclosed : unclosed = [] := by
      have hne : (gap cs).rest ≠ [] := by
        rw [show (gap cs).rest = c :: rest from hrest]
        exact List.cons_ne_nil _ _
      have hnone : space.unclosed = none := (trivia_gap hne).2
      simp [unclosed, hnone]
    have hbehind : ∀ diagnostic ∈ behind.diagnostics, first.stop ≤ diagnostic.start :=
      fun diagnostic hd => ((told_scanFrom file first.stop found.rest).1 diagnostic hd).le_start
    rw [hunclosed, List.nil_append]
    refine List.forall_mem_cons.2 ⟨?_, fun token ht => ?_⟩
    · refine ⟨space.skipped, c, rest, by rw [← hrest, gap_append], rfl, ?_, fun hd => ?_⟩
      · exact told_first file found (chars_lexeme_ne_nil c rest) hbehind
      · rw [show found.defect = none from hd]
        exact fun diagnostic hm => .inr (hbehind diagnostic hm)
    · have hstart : first.stop ≤ token.start := (ordered_scanFrom file first.stop found.rest).le_start ht
      have hfirst : first.start < first.stop :=
        Nat.lt_add_of_pos_right (byteCount_pos (chars_lexeme_ne_nil c rest))
      obtain ⟨before, d, more, hmore, htoken, hfilter, hmisses⟩ := ih token ht
      refine ⟨space.skipped ++ found.chars ++ before, d, more, ?_, ?_, ?_, fun hd => ?_⟩
      · rw [List.append_assoc, ← hmore, hcs]
      · rw [htoken, byteCount_append, byteCount_append]
        simp only [first, start, Nat.add_assoc]
      -- what is said about the first token is about bytes in front of the others
      · rw [List.filter_append, hfilter, List.append_left_eq_self, List.filter_eq_nil_iff]
        intro diagnostic hm
        have := (span_of_mem_defect hm).1
        simp only [decide_eq_true_eq]
        omega
      · intro diagnostic hm
        rcases List.mem_append.1 hm with hm | hm
        · obtain ⟨hd, hl⟩ := span_of_mem_defect hm
          left
          omega
        · exact hmisses hd diagnostic hm

/-- The token that starts behind some characters of a text is what the characters behind these
begin. -/
theorem eq_of_start_eq {file source : String} {token : Token}
    (ht : token ∈ (scan file source).tokens) {before : List Char} {c : Char} {rest : List Char}
    (hsource : source.toList = before ++ c :: rest) (hstart : token.start = byteCount before) :
    token = (lexeme c rest).token (byteCount before) ∧
      ((lexeme c rest).defect = none →
        ∀ diagnostic ∈ (scan file source).diagnostics, diagnostic.Misses token) := by
  obtain ⟨front, d, more, hfront, htoken, -, hmisses⟩ :=
    exists_lexeme_scanFrom file 0 source.toList token ht
  have hcount : byteCount front = byteCount before := by
    rw [← hstart, htoken]
    exact (Nat.zero_add _).symm
  have hbefore : front = before := by
    have hf : front <+: source.toList := ⟨_, hfront.symm⟩
    have hb : before <+: source.toList := ⟨_, hsource.symm⟩
    have hfb := prefix_of_byteCount_le hf hb (Nat.le_of_eq hcount)
    have hbf := prefix_of_byteCount_le hb hf (Nat.le_of_eq hcount.symm)
    exact hfb.eq_of_length_le hbf.length_le
  subst hbefore
  obtain ⟨rfl, rfl⟩ := List.cons.inj (List.append_cancel_left (hfront.symm.trans hsource))
  refine ⟨?_, hmisses⟩
  rw [htoken, Nat.zero_add]

end Token

end JavaNames
