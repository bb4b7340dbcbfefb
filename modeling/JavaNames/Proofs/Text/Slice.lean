/-
Slices of a text at its characters. The offsets between two characters of a text are those behind some
of its characters, and what stands between two of them is the slice there.
-/
import JavaNames.Text.Slice

namespace JavaNames.Text

/-! ## Bytes -/

theorem byteCount_pos {cs : List Char} (h : cs ≠ []) : 0 < byteCount cs := by
  cases cs with
  | nil => exact absurd rfl h
  | cons c rest =>
    have := c.utf8Size_pos
    simp only [byteCount_cons]
    omega

theorem byteCount_replicate (n : Nat) (c : Char) :
    byteCount (List.replicate n c) = n * c.utf8Size := by
  induction n with
  | zero => rw [Nat.zero_mul, List.replicate_zero, byteCount_nil]
  | succ n ih => rw [List.replicate_succ, byteCount_cons, ih, Nat.add_comm, Nat.succ_mul]

/-- Of two runs at the start of the same characters the one with fewer bytes is the shorter one. -/
theorem byteCount_lt_iff {cs front front' : List Char} (h : front <+: cs) (h' : front' <+: cs) :
    byteCount front < byteCount front' ↔ front.length < front'.length := by
  rcases List.prefix_or_prefix_of_prefix h h' with ⟨more, rfl⟩ | ⟨more, rfl⟩
  · rw [byteCount_append, List.length_append]
    by_cases hne : more = []
    · simp [hne]
    · have hbytes := byteCount_pos hne
      have hlength := List.length_pos_iff.2 hne
      omega
  · rw [byteCount_append, List.length_append]
    omega

/-- Of two runs at the start of the same characters the one with fewer bytes begins the other one. -/
theorem prefix_of_byteCount_le {cs front front' : List Char} (h : front <+: cs) (h' : front' <+: cs)
    (hle : byteCount front ≤ byteCount front') : front <+: front' := by
  have hlt := byteCount_lt_iff h' h
  exact List.prefix_of_prefix_length_le h h' (by omega)

theorem utf8ByteSize_ofList (cs : List Char) : (String.ofList cs).utf8ByteSize = byteCount cs := by
  induction cs with
  | nil => rfl
  | cons c rest ih =>
    rw [← List.singleton_append, String.ofList_append, String.utf8ByteSize_append, ih]
    simp [String.utf8ByteSize_singleton]

/-! ## Characters -/

theorem toList_pushn (text : String) (c : Char) (count : Nat) :
    (text.pushn c count).toList = text.toList ++ List.replicate count c := by
  rw [String.pushn_eq_repeat_push]
  induction count with
  | zero => exact (List.append_nil _).symm
  | succ count ih => rw [Nat.repeat, String.toList_push, ih, List.append_assoc, List.replicate_succ']

theorem lineFeed_not_mem_toString (number : Nat) : '\n' ∉ (toString number).toList := by
  intro hm
  rw [Nat.toString_eq_repr, Nat.toList_repr] at hm
  cases Nat.isDigit_of_mem_toDigits (by decide) (by decide) hm

/-! ## Boundaries -/

/-- Behind some characters of a text stands a boundary of characters. -/
theorem isValid_byteCount (before behind : List Char) :
    String.Pos.Raw.IsValid (String.ofList (before ++ behind)) ⟨byteCount before⟩ := by
  rw [String.Pos.Raw.isValid_iff_exists_append]
  refine ⟨String.ofList before, String.ofList behind, String.ofList_append, ?_⟩
  rw [String.Pos.Raw.ext_iff, String.byteIdx_rawEndPos, utf8ByteSize_ofList]

/-- A boundary splits the characters of a text. -/
theorem exists_of_isValid {text : String} {offset : Nat}
    (h : String.Pos.Raw.IsValid text ⟨offset⟩) :
    ∃ before behind, text = String.ofList (before ++ behind) ∧ offset = byteCount before := by
  obtain ⟨front, back, rfl, ho⟩ := String.Pos.Raw.isValid_iff_exists_append.1 h
  refine ⟨front.toList, back.toList, by simp, ?_⟩
  rw [← utf8ByteSize_ofList, String.ofList_toList]
  simpa [String.Pos.Raw.ext_iff] using ho

/-! ## Slices -/

/-- The slice between two characters is what stands between them. -/
theorem slice?_append (before inside behind : List Char) :
    slice? (String.ofList (before ++ inside ++ behind)) (byteCount before)
      (byteCount before + byteCount inside) = some (String.ofList inside) := by
  have hbytes : (String.ofList (before ++ inside ++ behind)).toUTF8 =
      (String.ofList before).toByteArray ++
        ((String.ofList inside).toByteArray ++ (String.ofList behind).toByteArray) := by
    rw [String.ofList_append, String.ofList_append, String.toUTF8_eq_toByteArray,
      String.toByteArray_append, String.toByteArray_append, ByteArray.append_assoc]
  have hextract : (String.ofList (before ++ inside ++ behind)).toUTF8.extract (byteCount before)
      (byteCount before + byteCount inside) = (String.ofList inside).toByteArray := by
    rw [hbytes, ← utf8ByteSize_ofList before, ← utf8ByteSize_ofList inside,
      ← String.size_toByteArray, ← String.size_toByteArray]
    refine Eq.trans (b := ByteArray.extract _ ((String.ofList before).toByteArray.size + 0) _) rfl ?_
    rw [ByteArray.extract_append_size_add, ByteArray.extract_append_eq_left rfl]
  unfold slice?
  rw [if_pos, hextract, String.fromUTF8?, dif_pos (String.ofList inside).isValidUTF8]
  · rfl
  · rw [utf8ByteSize_ofList, byteCount_append, byteCount_append]
    omega

end JavaNames.Text
