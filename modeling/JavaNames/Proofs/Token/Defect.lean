/-
What is said about the spelling of a text. Main statement: each diagnostic of a scan is about some of the
characters of the text, at least one, and each starts behind the one before it.
-/
import JavaNames.Proofs.Token.Tiling

namespace JavaNames

open JavaNames.Text

/-! ## Diagnostics about characters -/

/-- A diagnostic is about some of the characters that stand at an offset. -/
def Diagnostic.Within (diagnostic : Diagnostic) (offset : Nat) (cs : List Char) : Prop :=
  ∃ front inside behind, cs = front ++ inside ++ behind ∧ inside ≠ [] ∧
    diagnostic.start = offset + byteCount front ∧ diagnostic.length = byteCount inside

namespace Diagnostic.Within

variable {diagnostic : Diagnostic} {offset : Nat} {cs : List Char}

theorem le_start (h : diagnostic.Within offset cs) : offset ≤ diagnostic.start := by
  obtain ⟨front, -, -, -, -, hstart, -⟩ := h
  rw [hstart]
  exact Nat.le_add_right _ _

theorem length_pos (h : diagnostic.Within offset cs) : 1 ≤ diagnostic.length := by
  obtain ⟨-, inside, -, -, hne, -, hlength⟩ := h
  rw [hlength]
  exact byteCount_pos hne

/-- What is about some characters is about these behind others, too. -/
theorem behind (more : List Char) (h : diagnostic.Within (offset + byteCount more) cs) :
    diagnostic.Within offset (more ++ cs) := by
  obtain ⟨front, inside, behind, rfl, hne, hstart, hlength⟩ := h
  refine ⟨more ++ front, inside, behind, by simp only [List.append_assoc], hne, ?_, hlength⟩
  rw [hstart, byteCount_append, Nat.add_assoc]

/-- What is about characters of a text starts between two characters and ends inside the text. -/
theorem bounds {source : String} (h : diagnostic.Within 0 source.toList) :
    String.Pos.Raw.IsValid source ⟨diagnostic.start⟩ ∧
      diagnostic.start + diagnostic.length ≤ source.utf8ByteSize := by
  obtain ⟨front, inside, behind, hcs, -, hstart, hlength⟩ := h
  obtain rfl : source = String.ofList (front ++ inside ++ behind) := by
    rw [← hcs, String.ofList_toList]
  rw [hstart, hlength, Nat.zero_add]
  refine ⟨?_, ?_⟩
  · rw [List.append_assoc]
    exact isValid_byteCount _ _
  · rw [utf8ByteSize_ofList, byteCount_append, byteCount_append]
    exact Nat.le_add_right _ _

end Diagnostic.Within

namespace Token

/-- A comment that nothing closes stands at the end of the characters. -/
theorem within_unclosedComment (file : String) (offset : Nat) {cs comment : List Char}
    (h : Ending cs (some comment)) :
    (unclosedComment file (offset + byteCount cs) comment).Within offset cs := by
  cases h with
  | @comment front inside =>
    refine ⟨front, '/' :: '*' :: inside, [], (List.append_nil _).symm, List.cons_ne_nil _ _, ?_, rfl⟩
    change offset + byteCount (front ++ '/' :: '*' :: inside) - byteCount ('/' :: '*' :: inside) = _
    rw [byteCount_append]
    omega

theorem start_defectDiagnostic (file : String) (token : Token) (defect : Defect) :
    (defectDiagnostic file token defect).start = token.start := by
  cases defect <;> rfl

theorem length_defectDiagnostic (file : String) (token : Token) (defect : Defect) :
    (defectDiagnostic file token defect).length = token.stop - token.start := by
  cases defect <;> rfl

/-- What is said about the spelling of characters is about some of them, in their order. -/
theorem told_scanFrom (file : String) (offset : Nat) (cs : List Char) :
    (∀ diagnostic ∈ (scanFrom file offset cs).diagnostics, diagnostic.Within offset cs) ∧
      (scanFrom file offset cs).diagnostics.Pairwise fun one later => one.start < later.start := by
  fun_induction scanFrom file offset cs with
  | case1 offset cs space start unclosed hrest =>
    have hcs : space.skipped = cs := by
      have happend := gap_append cs
      rwa [show (gap cs).rest = [] from hrest, List.append_nil] at happend
    have hending := ending_gap hrest
    rw [show (gap cs).skipped = cs from hcs] at hending
    cases hunclosed : space.unclosed with
    | none => simp [unclosed, hunclosed]
    | some comment =>
      have htold : unclosed = [unclosedComment file (offset + byteCount cs) comment] := by
        simp [unclosed, hunclosed, start, hcs]
      rw [show (gap cs).unclosed = some comment from hunclosed] at hending
      rw [htold]
      exact ⟨List.forall_mem_singleton.2 (within_unclosedComment file offset hending),
        List.pairwise_singleton _ _⟩
  | case2 offset cs space start unclosed c rest hrest found token behind ih =>
    obtain ⟨hwithin, hrising⟩ := ih
    have hcs : space.skipped ++ found.chars ++ found.rest = cs := by
      rw [List.append_assoc, lexeme_append, ← hrest, gap_append]
    have hne : (gap cs).rest ≠ [] := by
      rw [show (gap cs).rest = c :: rest from hrest]
      exact List.cons_ne_nil _ _
    have hunclosed : unclosed = [] := by
      have hnone : space.unclosed = none := (trivia_gap hne).2
      simp [unclosed, hnone]
    have hstop : token.stop = offset + byteCount (space.skipped ++ found.chars) := by
      rw [byteCount_append, ← Nat.add_assoc]
    have hlt : token.start < token.stop :=
      Nat.lt_add_of_pos_right (byteCount_pos (chars_lexeme_ne_nil c rest))
    have hbehind : ∀ diagnostic ∈ behind.diagnostics, diagnostic.Within offset cs := by
      intro diagnostic hd
      have hdiagnostic := hwithin diagnostic hd
      rw [hstop] at hdiagnostic
      rw [← hcs]
      exact hdiagnostic.behind _
    rw [hunclosed, List.nil_append]
    cases found.defect with
    | none => exact ⟨hbehind, hrising⟩
    | some defect =>
      refine ⟨List.forall_mem_cons.2 ⟨?_, hbehind⟩, List.pairwise_cons.2 ⟨fun later hl => ?_, hrising⟩⟩
      · refine ⟨space.skipped, found.chars, found.rest, hcs.symm, chars_lexeme_ne_nil c rest,
          start_defectDiagnostic file token defect, ?_⟩
        rw [length_defectDiagnostic]
        exact Nat.add_sub_cancel_left _ _
      · rw [start_defectDiagnostic]
        exact Nat.lt_of_lt_of_le hlt (hwithin later hl).le_start

end Token

end JavaNames
