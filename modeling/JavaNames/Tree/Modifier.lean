/-
Modifiers of declarations. A set of modifiers is a bit vector, one bit for each modifier; its members
are listed in the fixed order of the bits.
-/

namespace JavaNames

/-- The modifiers that can stand before a declaration. -/
inductive Modifier where
  | publicMod | protectedMod | privateMod | staticMod | finalMod | abstractMod | nativeMod
  | synchronizedMod | transientMod | volatileMod | strictfpMod | defaultMod | sealedMod
  | nonSealedMod
deriving DecidableEq

namespace Modifier

/-- Every modifier, in the order of the bits. -/
def all : List Modifier :=
  [publicMod, protectedMod, privateMod, staticMod, finalMod, abstractMod, nativeMod,
    synchronizedMod, transientMod, volatileMod, strictfpMod, defaultMod, sealedMod, nonSealedMod]

/-- How a modifier is written. -/
def spelling : Modifier → String
  | publicMod => "public"
  | protectedMod => "protected"
  | privateMod => "private"
  | staticMod => "static"
  | finalMod => "final"
  | abstractMod => "abstract"
  | nativeMod => "native"
  | synchronizedMod => "synchronized"
  | transientMod => "transient"
  | volatileMod => "volatile"
  | strictfpMod => "strictfp"
  | defaultMod => "default"
  | sealedMod => "sealed"
  | nonSealedMod => "non-sealed"

/-- The number of a modifier's bit. -/
def index : Modifier → Nat
  | publicMod => 0
  | protectedMod => 1
  | privateMod => 2
  | staticMod => 3
  | finalMod => 4
  | abstractMod => 5
  | nativeMod => 6
  | synchronizedMod => 7
  | transientMod => 8
  | volatileMod => 9
  | strictfpMod => 10
  | defaultMod => 11
  | sealedMod => 12
  | nonSealedMod => 13

theorem getElem?_all_index (modifier : Modifier) : all[modifier.index]? = some modifier := by
  cases modifier <;> rfl

theorem index_lt (modifier : Modifier) : modifier.index < 14 := by
  cases modifier <;> decide

theorem index_eq_iff {a b : Modifier} : a.index = b.index ↔ a = b :=
  ⟨fun h => Option.some.inj (by rw [← getElem?_all_index a, h, getElem?_all_index]),
    fun h => h ▸ rfl⟩

theorem mem_all (modifier : Modifier) : modifier ∈ all := by
  cases modifier <;> decide

end Modifier

/-- A set of modifiers. -/
structure Modifiers where
  bits : BitVec 14
deriving DecidableEq

namespace Modifiers

/-- No modifiers. -/
def none : Modifiers := ⟨0⟩

/-- Whether a modifier is in the set. -/
def has (set : Modifiers) (modifier : Modifier) : Bool := set.bits.getLsbD modifier.index

/-- The set with one more modifier. -/
def insert (set : Modifiers) (modifier : Modifier) : Modifiers :=
  ⟨set.bits ||| BitVec.twoPow 14 modifier.index⟩

/-- The set of the modifiers in a list. -/
def ofList (modifiers : List Modifier) : Modifiers := modifiers.foldl insert none

/-- The modifiers in either set. -/
def union (a b : Modifiers) : Modifiers := ⟨a.bits ||| b.bits⟩

/-- The members of a set, in the order of the bits. -/
def toList (set : Modifiers) : List Modifier := Modifier.all.filter set.has

/-- The set whose bits are those of a number, without the bits that stand for no modifier. -/
def ofNat (bits : Nat) : Modifiers := ⟨BitVec.ofNat 14 bits⟩

/-- The words of the members, in the order of the bits. -/
def spellings (set : Modifiers) : List String := set.toList.map Modifier.spelling

@[simp] theorem has_none (modifier : Modifier) : none.has modifier = false := by
  simp [has, none]

@[simp] theorem has_insert (set : Modifiers) (added modifier : Modifier) :
    (set.insert added).has modifier = (set.has modifier || decide (modifier = added)) := by
  simp [has, insert, Modifier.index_lt, Modifier.index_eq_iff]

@[simp] theorem has_union (a b : Modifiers) (modifier : Modifier) :
    (a.union b).has modifier = (a.has modifier || b.has modifier) := by
  simp [has, union]

@[simp] theorem union_none (set : Modifiers) : set.union none = set := by
  simp [union, none]

@[simp] theorem mem_toList {set : Modifiers} {modifier : Modifier} :
    modifier ∈ set.toList ↔ set.has modifier = true := by
  simp [toList, Modifier.mem_all]

end Modifiers

end JavaNames
