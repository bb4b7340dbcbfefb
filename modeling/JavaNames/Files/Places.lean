/-
Places of a path. A path of `n` bytes has `n + 1` places: one before each byte and one behind the last.
Some of them are given by an answer for each, yes or no, from the first place to the last.
-/

namespace JavaNames.Files

/-- For each place of a path, whether it can be reached. -/
abbrev Places := List Bool

namespace Places

/-- The first place of a path. -/
def start (bs : List UInt8) : Places := true :: bs.map fun _ => false

/-- The places behind a byte that passes a test, from those before it. -/
def behind (test : UInt8 → Bool) (bs : List UInt8) (places : Places) : Places :=
  false :: bs.zipWith (fun b here => here && test b) places

/-- Some places and all that come after one of them. -/
def onward (places : Places) : Places := go false places
where
  /-- The same when a place before these may be among them. -/
  go (earlier : Bool) : Places → Places
    | [] => []
    | here :: rest => (earlier || here) :: go (earlier || here) rest

/-- The places in either of two lists. -/
def either (these those : Places) : Places := these.zipWith or those

/-- Whether the last place is reached. -/
def atEnd (places : Places) : Bool := places.getLastD false

end Places

end JavaNames.Files
