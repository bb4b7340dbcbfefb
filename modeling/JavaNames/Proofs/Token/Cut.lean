/-
The bytes at a place between two characters. A character of ASCII is one byte, which is its number, and no
byte of another character is a character of ASCII. So what is found byte by byte stands between two
characters, and a search that passes over a part of a character passes over all of it.
-/
import JavaNames.Proofs.Text.Slice
import JavaNames.Token.Bytewise
import Mathlib

namespace JavaNames.Token.Bytewise

open JavaNames.Text

/-! ## Characters as bytes -/

/-- The bytes of characters, each as the character with its number. -/
def bytesOf (cs : List Char) : List Char :=
  (cs.flatMap String.utf8EncodeChar).map fun b => Char.ofUInt8 b

theorem bytesOf_cons (c : Char) (cs : List Char) : bytesOf (c :: cs) = bytesOf [c] ++ bytesOf cs := by
  simp [bytesOf]

theorem bytesOf_append (cs others : List Char) : bytesOf (cs ++ others) = bytesOf cs ++ bytesOf others := by
  simp [bytesOf]

theorem length_bytesOf (cs : List Char) : (bytesOf cs).length = byteCount cs := by
  induction cs with
  | nil => rfl
  | cons c cs ih =>
    rw [bytesOf_cons, List.length_append, ih, byteCount_cons]
    simp [bytesOf]

theorem byte?_ofList (cs : List Char) (offset : Nat) :
    byte? (String.ofList cs) offset = (bytesOf cs)[offset]? := by
  have hbytes (bs : List UInt8) : bs.toByteArray[offset]? = bs[offset]? := by
    rw [getElem?_def, getElem?_def]
    simp
  rw [byte?, String.toUTF8_eq_toByteArray, String.toByteArray_ofList, List.utf8Encode, hbytes,
    bytesOf, List.getElem?_map]

theorem lt_of_byte? {source : String} {offset : Nat} {b : Char} (h : byte? source offset = some b) :
    offset < source.utf8ByteSize := by
  rw [← String.ofList_toList (s := source), byte?_ofList] at h
  obtain ⟨hlength, -⟩ := List.getElem?_eq_some_iff.1 h
  rwa [length_bytesOf, ← utf8ByteSize_ofList, String.ofList_toList] at hlength

/-- At a byte a loop over the bytes does what it does with that byte. -/
theorem loop_of_byte? {α : Type} {source : String} {offset : Nat} {b : Char} {f : Char → Option α}
    {ending : Option α} (hb : byte? source offset = some b) :
    (if offset < source.utf8ByteSize then do f (← byte? source offset) else ending) = f b := by
  rw [if_pos (lt_of_byte? hb), hb]
  rfl

theorem utf8Size_of_isAscii {c : Char} (hc : isAscii c) : c.utf8Size = 1 := by
  rw [isAscii, decide_eq_true_eq] at hc
  rw [Char.utf8Size_eq_one_iff, UInt32.le_iff_toNat_le]
  exact Nat.le_of_lt_succ hc

/-- A character of ASCII is one byte, which is its number. -/
theorem bytesOf_of_isAscii {c : Char} (hc : isAscii c) : bytesOf [c] = [c] := by
  have hnumber : c.val.toNat < 128 := of_decide_eq_true hc
  have hc' : Char.ofUInt8 c.toUInt8 = c := by
    apply Char.ext
    rw [← UInt32.toNat_inj]
    rw [← Char.toUInt8_val, Char.ofUInt8, UInt8.toNat_toUInt32, UInt32.toNat_toUInt8]
    exact Nat.mod_eq_of_lt (by omega)
  simp [bytesOf, String.utf8EncodeChar_eq_singleton (utf8Size_of_isAscii hc), hc']

/-- No byte of another character is a character of ASCII. -/
theorem not_isAscii_of_mem_bytesOf {c d : Char} (hc : isAscii c = false) (hd : d ∈ bytesOf [c]) :
    isAscii d = false := by
  have hlow : ¬c.val.toNat ≤ 127 := by
    have hnumber := of_decide_eq_false hc
    exact fun hle => hnumber (Nat.lt_succ_of_le hle)
  have hhigh : c.val.toNat < 0x110000 := by
    rcases c.valid with hv | hv
    · exact Nat.lt_trans hv (by decide)
    · exact hv.2
  rw [bytesOf, List.flatMap_singleton] at hd
  obtain ⟨b, hb, rfl⟩ := List.mem_map.1 hd
  have hb' : 128 ≤ b.toNat := by
    simp only [String.utf8EncodeChar, if_neg hlow] at hb
    -- each length of the encoding has marks of its own in the bytes
    split at hb
    · simp only [List.mem_cons, List.not_mem_nil, or_false] at hb
      rcases hb with rfl | rfl <;> rw [UInt8.toNat_ofNat'] <;> omega
    split at hb
    · simp only [List.mem_cons, List.not_mem_nil, or_false] at hb
      rcases hb with rfl | rfl | rfl <;> rw [UInt8.toNat_ofNat'] <;> omega
    · simp only [List.mem_cons, List.not_mem_nil, or_false] at hb
      rcases hb with rfl | rfl | rfl | rfl <;> rw [UInt8.toNat_ofNat'] <;> omega
  have hnumber : (Char.ofUInt8 b).toNat = b.toNat := by
    simp [Char.ofUInt8, Char.toNat]
  rw [isAscii, decide_eq_false_iff_not, hnumber]
  omega

theorem ne_of_isAscii {b c : Char} (hb : isAscii b = false) (hc : isAscii c) : b ≠ c := by
  rintro rfl
  exact Bool.false_ne_true (hb.symm.trans hc)

theorem eq_false_of_foreign {p : Char → Bool} (hp : ∀ c, p c → isAscii c) {b : Char}
    (hb : isAscii b = false) : p b = false :=
  Bool.eq_false_iff.2 fun h => Bool.false_ne_true (hb.symm.trans (hp b h))

/-! ## Places between characters -/

/-- Characters stand from an offset of a text on, and others in front of it. -/
structure Cut (source : String) (before cs : List Char) (offset : Nat) : Prop where
  toList : source.toList = before ++ cs
  offset : offset = byteCount before

namespace Cut

variable {source : String} {before cs rest : List Char} {c : Char} {offset : Nat}

theorem start (source : String) : Cut source [] source.toList 0 := ⟨rfl, rfl⟩

theorem append (inside : List Char) (h : Cut source before (inside ++ cs) offset) :
    Cut source (before ++ inside) cs (offset + byteCount inside) :=
  ⟨by rw [h.toList, List.append_assoc], by rw [h.offset, byteCount_append]⟩

theorem cons (h : Cut source before (c :: rest) offset) :
    Cut source (before ++ [c]) rest (offset + c.utf8Size) :=
  append [c] h

theorem consAscii (h : Cut source before (c :: rest) offset) (hc : isAscii c) :
    Cut source (before ++ [c]) rest (offset + 1) :=
  utf8Size_of_isAscii hc ▸ h.cons

theorem eq_ofList (h : Cut source before cs offset) : source = String.ofList (before ++ cs) := by
  rw [← h.toList, String.ofList_toList]

theorem size (h : Cut source before cs offset) : source.utf8ByteSize = offset + byteCount cs := by
  rw [h.eq_ofList, utf8ByteSize_ofList, byteCount_append, h.offset]

theorem finish (h : Cut source before cs offset) : Cut source (before ++ cs) [] source.utf8ByteSize :=
  h.size ▸ append cs (by rwa [List.append_nil])

theorem slice? (inside : List Char) (h : Cut source before (inside ++ cs) offset) :
    Text.slice? source offset (offset + byteCount inside) = some (String.ofList inside) := by
  rw [h.eq_ofList, h.offset, ← List.append_assoc]
  exact slice?_append before inside cs

theorem charAt? (h : Cut source before cs offset) : Bytewise.charAt? source offset = some cs.head? := by
  have hslice := slice? cs (show Cut source before (cs ++ []) offset by rwa [List.append_nil])
  rw [Bytewise.charAt?, h.size, hslice, Option.map_some, String.toList_ofList]

/-! ## Single bytes -/

theorem byte?_add (h : Cut source before cs offset) (i : Nat) :
    byte? source (offset + i) = (bytesOf cs)[i]? := by
  rw [h.eq_ofList, byte?_ofList, bytesOf_append, h.offset, ← length_bytesOf,
    List.getElem?_append_right (Nat.le_add_right _ _), Nat.add_sub_cancel_left]

theorem byte?_nil (h : Cut source before [] offset) : byte? source offset = none :=
  h.byte?_add 0

theorem byte?_ascii (h : Cut source before (c :: rest) offset) (hc : isAscii c) :
    byte? source offset = some c := by
  have hbyte := h.byte?_add 0
  rwa [bytesOf_cons, bytesOf_of_isAscii hc] at hbyte

theorem byte?_foreign (h : Cut source before (c :: rest) offset) (hc : isAscii c = false) {i : Nat}
    (hi : i < c.utf8Size) : ∃ b, byte? source (offset + i) = some b ∧ isAscii b = false := by
  have hlength : i < (bytesOf [c]).length := by
    rwa [length_bytesOf, byteCount_cons, byteCount_nil, Nat.add_zero]
  refine ⟨_, ?_, not_isAscii_of_mem_bytesOf hc (List.getElem_mem hlength)⟩
  rw [h.byte?_add, bytesOf_cons, List.getElem?_append_left hlength, List.getElem?_eq_getElem hlength]

theorem firstByte_foreign (h : Cut source before (c :: rest) offset) (hc : isAscii c = false) :
    ∃ b, byte? source offset = some b ∧ isAscii b = false :=
  h.byte?_foreign hc c.utf8Size_pos

/-- A question about characters of ASCII is put to a byte as to a character. -/
theorem any_byte? (h : Cut source before cs offset) {p : Char → Bool} (hp : ∀ c, p c → isAscii c) :
    (byte? source offset).any p = cs.head?.any p := by
  cases cs with
  | nil => rw [h.byte?_nil, List.head?_nil]
  | cons c rest =>
    rw [List.head?_cons, Option.any_some]
    cases hc : isAscii c with
    | true => rw [h.byte?_ascii hc, Option.any_some]
    | false =>
      obtain ⟨b, hb, hb'⟩ := h.firstByte_foreign hc
      rw [hb, Option.any_some, eq_false_of_foreign hp hb', eq_false_of_foreign hp hc]

theorem byte?_eq_some_iff (h : Cut source before cs offset) (hc : isAscii c) :
    byte? source offset = some c ↔ cs.head? = some c := by
  have hany (found : Option Char) : found.any (fun d => d == c) = true ↔ found = some c := by
    cases found <;> simp
  rw [← hany, ← hany, h.any_byte?]
  intro d hd
  rwa [eq_of_beq hd]

/-- What passes over each byte that is no character of ASCII passes over a character beyond ASCII, also
from inside of it. -/
theorem pass {β : Type} {f : Nat → β}
    (hf : ∀ o b, byte? source o = some b → isAscii b = false → f o = f (o + 1))
    (h : Cut source before (c :: rest) offset) (hc : isAscii c = false) {i : Nat}
    (hi : i ≤ c.utf8Size) : f (offset + i) = f (offset + c.utf8Size) := by
  obtain ⟨n, hn⟩ := Nat.exists_eq_add_of_le hi
  induction n generalizing i with
  | zero => rw [hn, Nat.add_zero]
  | succ n ih =>
    obtain ⟨b, hb, hb'⟩ := h.byte?_foreign hc (i := i) (by omega)
    rw [hf _ b hb hb', Nat.add_assoc]
    exact ih (by omega) (by omega)

/-! ## Texts of ASCII -/

theorem standsAt {text : List Char} (ht : text.all isAscii) (h : Cut source before cs offset) :
    standsAt source text offset = text.isPrefixOf cs := by
  induction text generalizing before cs offset with
  | nil => simp [Bytewise.standsAt]
  | cons d text ih =>
    rw [List.all_cons, Bool.and_eq_true] at ht
    obtain ⟨hd, ht'⟩ := ht
    have hhead : decide (byte? source offset = some d) = decide (cs.head? = some d) :=
      decide_eq_decide.2 (h.byte?_eq_some_iff hd)
    rw [Bytewise.standsAt, hhead]
    cases cs with
    | nil => simp
    | cons c rest =>
      by_cases hcd : c = d
      · subst hcd
        rw [ih ht' (h.consAscii hd)]
        simp
      · simp [hcd, List.isPrefixOf, beq_eq_false_iff_ne.2 (Ne.symm hcd)]

theorem lt_size (h : Cut source before (c :: rest) offset) : offset < source.utf8ByteSize := by
  have hsize := h.size
  have hpos := c.utf8Size_pos
  rw [byteCount_cons] at hsize
  omega

theorem not_lt_size (h : Cut source before [] offset) : ¬offset < source.utf8ByteSize :=
  Nat.not_lt.2 (Nat.le_of_eq h.size)

theorem le_of_find? {text : List Char} {found : Nat} (h : find? source text offset = some found) :
    offset ≤ found := by
  fun_induction find? source text offset with
  | case1 => exact Nat.le_of_eq (Option.some.inj h)
  | case2 offset _ _ ih => exact Nat.le_of_succ_le (ih h)
  | case3 => cases h

theorem find?_nil {text : List Char} (hne : text ≠ []) (ht : text.all isAscii)
    (h : Cut source before [] offset) : find? source text offset = none := by
  have hsize : source.utf8ByteSize = offset := h.size
  rw [find?, h.standsAt ht, hsize]
  cases text with
  | nil => exact absurd rfl hne
  | cons d text => simp

/-- A text is found in front of a character or behind it. -/
theorem find?_cons {text : List Char} (hne : text ≠ []) (ht : text.all isAscii)
    (h : Cut source before (c :: rest) offset) :
    find? source text offset =
      if text.isPrefixOf (c :: rest) then some offset else find? source text (offset + c.utf8Size) := by
  cases hc : isAscii c with
  | true => rw [find?, h.standsAt ht, if_pos h.lt_size, utf8Size_of_isAscii hc]
  | false =>
    obtain ⟨d, text, rfl⟩ := List.exists_cons_of_ne_nil hne
    rw [List.all_cons, Bool.and_eq_true] at ht
    have hstep (o : Nat) (b : Char) (hb : byte? source o = some b) (hb' : isAscii b = false) :
        find? source (d :: text) o = find? source (d :: text) (o + 1) := by
      rw [find?, Bytewise.standsAt, hb, if_neg (by simp [ne_of_isAscii hb' ht.1]),
        if_pos (lt_of_byte? hb)]
    rw [if_neg (by simp [(ne_of_isAscii hc ht.1).symm])]
    exact pass hstep h hc (Nat.zero_le _)

end Cut

end JavaNames.Token.Bytewise
