/-
Byte offsets in a text. An offset counts UTF-8 bytes from the start; a slice between two offsets
exists when both stand on character boundaries of the text.
-/

namespace JavaNames.Text

/-- The number of UTF-8 bytes of a run of characters. -/
def byteCount (cs : List Char) : Nat := cs.foldr (fun c count => c.utf8Size + count) 0

@[simp] theorem byteCount_nil : byteCount [] = 0 := rfl

@[simp] theorem byteCount_cons (c : Char) (cs : List Char) :
    byteCount (c :: cs) = c.utf8Size + byteCount cs := rfl

@[simp] theorem byteCount_append (as bs : List Char) :
    byteCount (as ++ bs) = byteCount as + byteCount bs := by
  induction as with
  | nil => simp
  | cons c as ih => simp [ih, Nat.add_assoc]

/-- The part of a text from one byte offset up to another; there is none when the offsets are out
of order, beyond the end, or inside a character. -/
def slice? (text : String) (start stop : Nat) : Option String :=
  if start ≤ stop ∧ stop ≤ text.utf8ByteSize then
    String.fromUTF8? (text.toUTF8.extract start stop)
  else none

/-- The slice between two offsets, empty where there is none. -/
def slice (text : String) (start stop : Nat) : String := (slice? text start stop).getD ""

/-! ## Words of 32 bits -/

/-- An offset as a word of 32 bits holds it. -/
def narrow (offset : Nat) : Nat := offset % UInt32.size

theorem narrow_of_lt {offset : Nat} (h : offset < UInt32.size) : narrow offset = offset :=
  Nat.mod_eq_of_lt h

end JavaNames.Text
