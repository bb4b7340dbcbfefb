/-
The tokens of a text stand one behind the other and none of them is empty.
-/
import JavaNames.Proofs.Text.Slice
import JavaNames.Token.Scan

namespace JavaNames.Token

open JavaNames.Text

/-- Tokens that stand one behind the other, each at least one byte long, between two offsets. -/
inductive Ordered (stop : Nat) : Nat → List Token → Prop
  | nil {start : Nat} : start ≤ stop → Ordered stop start []
  | cons {start : Nat} {token : Token} {rest : List Token} : start ≤ token.start →
    token.start < token.stop → Ordered stop token.stop rest → Ordered stop start (token :: rest)

theorem Ordered.le {stop start : Nat} {tokens : List Token} (h : Ordered stop start tokens) :
    start ≤ stop := by
  induction h with
  | nil h => exact h
  | cons hs ht _ ih => omega

theorem Ordered.start_lt_stop {stop start : Nat} {tokens : List Token} (h : Ordered stop start tokens)
    {token : Token} (ht : token ∈ tokens) : token.start < token.stop := by
  induction h with
  | nil => exact absurd ht List.not_mem_nil
  | cons _ hlt _ ih =>
    rcases List.mem_cons.1 ht with rfl | ht
    · exact hlt
    · exact ih ht

theorem Ordered.le_start {stop start : Nat} {tokens : List Token} (h : Ordered stop start tokens)
    {token : Token} (ht : token ∈ tokens) : start ≤ token.start := by
  induction h with
  | nil => exact absurd ht List.not_mem_nil
  | cons hs hlt _ ih =>
    rcases List.mem_cons.1 ht with rfl | ht
    · exact hs
    · exact Nat.le_trans (Nat.le_trans hs (Nat.le_of_lt hlt)) (ih ht)

/-- Two tokens that overlap are the same. -/
theorem Ordered.eq_of_overlap {stop start : Nat} {tokens : List Token} (h : Ordered stop start tokens)
    {token other : Token} (ht : token ∈ tokens) (ho : other ∈ tokens) (hlt : other.start < token.stop)
    (hlt' : token.start < other.stop) : other = token := by
  induction h with
  | nil => exact absurd ht List.not_mem_nil
  | cons _ _ hrest ih =>
    rcases List.mem_cons.1 ht with rfl | hm <;> rcases List.mem_cons.1 ho with rfl | hm'
    · rfl
    · exact absurd hlt (Nat.not_lt.2 (hrest.le_start hm'))
    · exact absurd hlt' (Nat.not_lt.2 (hrest.le_start hm))
    · exact ih hm hm'

theorem ordered_scanFrom (file : String) (offset : Nat) (cs : List Char) :
    Ordered (offset + byteCount cs) offset (scanFrom file offset cs).tokens := by
  fun_induction scanFrom file offset cs with
  | case1 offset cs => exact .nil (by omega)
  | case2 offset cs space start unclosed c rest hrest found token behind ih =>
    have hgap := congrArg byteCount (gap_append cs)
    have hlex := congrArg byteCount (lexeme_append c rest)
    have hpos := byteCount_pos (chars_lexeme_ne_nil c rest)
    rw [byteCount_append] at hgap hlex
    rw [show (gap cs).rest = c :: rest from hrest, ← hlex] at hgap
    refine .cons (Nat.le_add_right _ _) (Nat.lt_add_of_pos_right hpos) ?_
    have hstop : token.stop + byteCount found.rest = offset + byteCount cs := by
      simp only [token, start, space, found]
      omega
    rwa [hstop] at ih

theorem ordered_scan (file source : String) :
    Ordered source.utf8ByteSize 0 (scan file source).tokens := by
  have h := ordered_scanFrom file 0 source.toList
  rwa [Nat.zero_add, ← utf8ByteSize_ofList, String.ofList_toList] at h

end JavaNames.Token
