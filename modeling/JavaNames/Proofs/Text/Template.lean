/-
Templates that are filled. The arguments are put in one after the other, so that the places of the later
ones are looked for in a text that holds the earlier ones. No text without digits and nothing around it
can be taken for a placeholder. Main statement: where all arguments but the last are free of digits, the
result is the same as if all of them were put in at the same time, whatever the last one is.
-/
import JavaNames.Diagnostic.Template
import Mathlib.Data.List.Basic

namespace JavaNames.Diagnostic

/-! ## Putting all arguments in at the same time -/

/-- The text with each argument in the place of its placeholder. The text is gone through once, and what
is put in is not looked at. -/
def substitute (arguments : List String) : List Char → List Char
  | [] => []
  | c :: rest =>
    match arguments.zipIdx.find? fun entry => (placeholder entry.2).isPrefixOf (c :: rest) with
    | some (argument, number) =>
      argument.toList ++ substitute arguments (rest.drop ((placeholder number).length - 1))
    | none => c :: substitute arguments rest
  termination_by text => text.length
  decreasing_by
    · simp only [List.length_drop, List.length_cons]; omega
    · simp

/-- A text without digits. -/
def DigitFree (text : List Char) : Prop := ∀ c ∈ text, c.isDigit = false

instance (text : List Char) : Decidable (DigitFree text) :=
  decidable_of_iff (text.all fun c => !c.isDigit) (by simp [DigitFree])

/-- What begins with a text without digits, or with what follows it, does not begin with a digit if what
follows does not. -/
theorem DigitFree.head {text rest : List Char} (h : DigitFree text)
    (hrest : ∀ c ∈ rest.head?, c.isDigit = false) :
    ∀ c ∈ (text ++ rest).head?, c.isDigit = false := by
  cases text with
  | nil => exact hrest
  | cons first text =>
    rintro c ⟨rfl⟩
    exact h first List.mem_cons_self

/-! ## Placeholders -/

theorem isDigit_of_mem_repr {number : Nat} {c : Char} (h : c ∈ (Nat.repr number).toList) :
    c.isDigit = true := by
  rw [Nat.toList_repr] at h
  exact Nat.isDigit_of_mem_toDigits (by decide) (by decide) h

/-- Behind its brace a placeholder goes on with a digit. -/
theorem exists_digit (number : Nat) : ∃ digit digits, digit.isDigit = true ∧
    placeholder number = '\x7b' :: digit :: digits := by
  obtain ⟨digit, digits, hcons⟩ : ∃ digit digits, (Nat.repr number).toList = digit :: digits := by
    rw [Nat.toList_repr]
    exact List.exists_cons_of_ne_nil Nat.toDigits_ne_nil
  refine ⟨digit, digits ++ ['\x7d'], isDigit_of_mem_repr (hcons ▸ List.mem_cons_self), ?_⟩
  rw [placeholder, hcons]
  rfl

theorem placeholder_ne_nil (number : Nat) : placeholder number ≠ [] := by
  rw [placeholder]
  exact List.cons_ne_nil _ _

/-- No placeholder stands in front of a text that does not begin with a digit behind its first
character. -/
theorem not_prefix_of_head {c : Char} {rest : List Char} (number : Nat)
    (h : c = '\x7b' → ∀ next ∈ rest.head?, next.isDigit = false) :
    ¬placeholder number <+: c :: rest := by
  obtain ⟨digit, digits, hdigit, hcons⟩ := exists_digit number
  intro hprefix
  rw [hcons, List.cons_prefix_cons] at hprefix
  obtain ⟨rfl, behind, hbehind⟩ := hprefix
  have hhead := h rfl digit (by rw [← hbehind]; rfl)
  rw [hdigit] at hhead
  exact Bool.noConfusion hhead

/-- A text begins with one placeholder only. -/
theorem number_unique {number other : Nat} {rest : List Char}
    (h : placeholder number <+: placeholder other ++ rest) : number = other := by
  obtain ⟨behind, hbehind⟩ := h
  have hdigits (n : Nat) (tail : List Char) :
      ((placeholder n ++ tail).tail).takeWhile Char.isDigit = (Nat.repr n).toList := by
    have hcons : (placeholder n ++ tail).tail = (Nat.repr n).toList ++ '\x7d' :: tail := by
      simp [placeholder]
    rw [hcons, List.takeWhile_append_of_pos fun _ hc => isDigit_of_mem_repr hc,
      List.takeWhile_cons_of_neg (by decide), List.append_nil]
  have hrepr : (Nat.repr number).toList = (Nat.repr other).toList := by
    rw [← hdigits number behind, hbehind, hdigits]
  rw [Nat.toList_repr, Nat.toList_repr] at hrepr
  have hvalue := congrArg (fun digits => Nat.ofDigitChars 10 digits 0) hrepr
  rwa [Nat.ofDigitChars_toDigits (by decide) (by decide),
    Nat.ofDigitChars_toDigits (by decide) (by decide)] at hvalue

/-! ## Replacing one placeholder -/

section

variable {number : Nat} (replacement : List Char)

theorem replaceAll_cons {c : Char} {rest : List Char} (h : ¬placeholder number <+: c :: rest) :
    replaceAll (placeholder number) replacement (c :: rest) =
      c :: replaceAll (placeholder number) replacement rest := by
  rw [replaceAll, if_neg]
  rintro ⟨-, hprefix⟩
  exact h (List.isPrefixOf_iff_prefix.1 hprefix)

/-- The placeholder itself is replaced. -/
theorem replaceAll_placeholder (number : Nat) (rest : List Char) :
    replaceAll (placeholder number) replacement (placeholder number ++ rest) =
      replacement ++ replaceAll (placeholder number) replacement rest := by
  obtain ⟨c, chars, hcons⟩ := List.exists_cons_of_ne_nil (placeholder_ne_nil number)
  have hprefix : (placeholder number).isPrefixOf (c :: (chars ++ rest)) := by
    rw [List.isPrefixOf_iff_prefix, hcons]
    exact List.prefix_append (c :: chars) rest
  have hdrop : (chars ++ rest).drop ((placeholder number).length - 1) = rest := by
    rw [hcons]
    exact List.drop_left
  rw [show placeholder number ++ rest = c :: (chars ++ rest) by rw [hcons]; rfl, replaceAll,
    if_pos ⟨placeholder_ne_nil number, hprefix⟩, hdrop]

/-- A text without an opening brace stays. -/
theorem replaceAll_of_not_mem {text : List Char} (h : '\x7b' ∉ text) (rest : List Char) :
    replaceAll (placeholder number) replacement (text ++ rest) =
      text ++ replaceAll (placeholder number) replacement rest := by
  induction text with
  | nil => rfl
  | cons c text ih =>
    have hc : c ≠ '\x7b' := fun hc => h (hc ▸ List.mem_cons_self)
    rw [List.cons_append, replaceAll_cons _ (not_prefix_of_head _ fun heq => absurd heq hc),
      ih fun hm => h (List.mem_cons_of_mem _ hm), List.cons_append]

/-- Any other placeholder stays. -/
theorem replaceAll_other {other : Nat} (h : other ≠ number) (rest : List Char) :
    replaceAll (placeholder number) replacement (placeholder other ++ rest) =
      placeholder other ++ replaceAll (placeholder number) replacement rest := by
  obtain ⟨chars, hcons⟩ : ∃ chars, placeholder other = '\x7b' :: chars := ⟨_, rfl⟩
  have hbrace : '\x7b' ∉ chars := by
    have htail : chars = (Nat.repr other).toList ++ ['\x7d'] := by
      rw [placeholder] at hcons
      exact (List.cons.inj hcons).2.symm
    intro hm
    rcases List.mem_append.1 (htail ▸ hm) with hm | hm
    · exact absurd (isDigit_of_mem_repr hm) (by decide)
    · exact absurd hm (by decide)
  have hnot : ¬placeholder number <+: '\x7b' :: (chars ++ rest) := by
    intro hprefix
    rw [← List.cons_append, ← hcons] at hprefix
    exact h (number_unique hprefix).symm
  rw [hcons, List.cons_append, replaceAll_cons _ hnot, replaceAll_of_not_mem _ hbrace,
    List.cons_append]

end

/-! ## Pieces of templates -/

/-- A piece of a template: some text, or the placeholder of an argument. -/
inductive Piece where
  | text (chars : List Char)
  | hole (number : Nat)

namespace Piece

/-- How a piece is written. -/
def chars : Piece → List Char
  | text chars => chars
  | hole number => placeholder number

/-- Whether a piece is a placeholder or text without digits. -/
def Plain : Piece → Prop
  | text chars => DigitFree chars
  | hole _ => True

instance : DecidablePred Plain
  | text chars => inferInstanceAs (Decidable (DigitFree chars))
  | hole _ => isTrue trivial

/-- The piece with a replacement in the place of one placeholder. -/
def put (number : Nat) (replacement : List Char) : Piece → Piece
  | text chars => text chars
  | hole other => if other = number then text replacement else hole other

/-- The piece with its argument in the place of a placeholder; the first argument has the given
number. -/
def fill (number : Nat) (arguments : List String) : Piece → Piece
  | text chars => text chars
  | hole other =>
    if other < number then hole other
    else (arguments[other - number]?.map fun argument => text argument.toList).getD (hole other)

theorem Plain.put {piece : Piece} (h : piece.Plain) (number : Nat) {replacement : List Char}
    (hr : DigitFree replacement) : (piece.put number replacement).Plain := by
  cases piece with
  | text chars => exact h
  | hole other =>
    rw [Piece.put]
    by_cases heq : other = number
    · rw [if_pos heq]
      exact hr
    · rw [if_neg heq]
      trivial

theorem fill_nil (number : Nat) (piece : Piece) : piece.fill number [] = piece := by
  cases piece with
  | text chars => rfl
  | hole other => simp [fill]

/-- The first argument is put in and then the others. -/
theorem fill_cons (number : Nat) (argument : String) (arguments : List String) (piece : Piece) :
    piece.fill number (argument :: arguments) =
      (piece.put number argument.toList).fill (number + 1) arguments := by
  cases piece with
  | text chars => rfl
  | hole other =>
    rcases Nat.lt_trichotomy other number with hlt | rfl | hlt
    · simp [put, fill, hlt, Nat.ne_of_lt hlt, Nat.lt_succ_of_lt hlt]
    · simp [put, fill]
    · have hsub : other - number = other - (number + 1) + 1 := by omega
      simp [put, fill, hsub, Nat.ne_of_gt hlt, Nat.lt_asymm hlt, Nat.not_lt_of_ge hlt]

end Piece

/-- The text that some pieces make up. -/
def render (pieces : List Piece) : List Char := pieces.flatMap Piece.chars

theorem render_cons (piece : Piece) (pieces : List Piece) :
    render (piece :: pieces) = piece.chars ++ render pieces := List.flatMap_cons

/-- Plain pieces do not begin with a digit. -/
theorem isDigit_head_render {pieces : List Piece} (h : ∀ piece ∈ pieces, piece.Plain) :
    ∀ c ∈ (render pieces).head?, c.isDigit = false := by
  induction pieces with
  | nil => exact nofun
  | cons piece pieces ih =>
    rw [List.forall_mem_cons] at h
    rw [render_cons]
    cases piece with
    | text chars => exact DigitFree.head h.1 (ih h.2)
    | hole number =>
      rintro c ⟨rfl⟩
      decide

/-- In front of plain pieces, text without digits cannot be taken for a placeholder, nor can any of its
characters together with what follows. -/
theorem replaceAll_text {number : Nat} (replacement : List Char) {chars rest : List Char}
    (h : DigitFree chars) (hrest : ∀ c ∈ rest.head?, c.isDigit = false) :
    replaceAll (placeholder number) replacement (chars ++ rest) =
      chars ++ replaceAll (placeholder number) replacement rest := by
  induction chars with
  | nil => rfl
  | cons c chars ih =>
    rw [DigitFree, List.forall_mem_cons] at h
    have hnext := DigitFree.head h.2 hrest
    rw [List.cons_append, replaceAll_cons _ (not_prefix_of_head _ fun _ => hnext), ih h.2,
      List.cons_append]

/-! ## Filling a template -/

/-- Replacing one placeholder of plain pieces replaces that piece and no other. -/
theorem replaceAll_render (number : Nat) (replacement : List Char) {pieces : List Piece}
    (h : ∀ piece ∈ pieces, piece.Plain) :
    replaceAll (placeholder number) replacement (render pieces) =
      render (pieces.map (Piece.put number replacement)) := by
  induction pieces with
  | nil =>
    change replaceAll (placeholder number) replacement [] = []
    rw [replaceAll]
  | cons piece pieces ih =>
    rw [List.forall_mem_cons] at h
    rw [List.map_cons, render_cons, render_cons, ← ih h.2]
    cases piece with
    | text chars => exact replaceAll_text replacement h.1 (isDigit_head_render h.2)
    | hole other =>
      rw [Piece.put]
      by_cases heq : other = number
      · subst heq
        rw [if_pos rfl]
        exact replaceAll_placeholder replacement other _
      · rw [if_neg heq]
        exact replaceAll_other replacement heq _

/-- Arguments that are put in one after the other are all in the places of their placeholders, if no
argument but the last has a digit. -/
theorem fillFrom_render {arguments : List String}
    (ha : ∀ argument ∈ arguments.dropLast, DigitFree argument.toList) (number : Nat)
    {pieces : List Piece} (h : ∀ piece ∈ pieces, piece.Plain) :
    fillFrom number (render pieces) arguments =
      render (pieces.map (Piece.fill number arguments)) := by
  induction arguments generalizing number pieces with
  | nil =>
    have hid : Piece.fill number [] = id := funext (Piece.fill_nil number)
    rw [fillFrom, hid, List.map_id]
  | cons argument arguments ih =>
    have hcompose : Piece.fill number (argument :: arguments) =
        Piece.fill (number + 1) arguments ∘ Piece.put number argument.toList :=
      funext (Piece.fill_cons number argument arguments)
    rw [fillFrom, replaceAll_render number _ h, hcompose, ← List.map_map]
    cases arguments with
    | nil =>
      have hid : Piece.fill (number + 1) [] = id := funext (Piece.fill_nil _)
      rw [fillFrom, hid, List.map_id]
    | cons next arguments =>
      rw [List.dropLast_cons_cons, List.forall_mem_cons] at ha
      refine ih ha.2 (number + 1) ?_
      intro piece hp
      obtain ⟨before, hbefore, rfl⟩ := List.mem_map.1 hp
      exact (h before hbefore).put number ha.1

/-! ## Filling a template at once -/

section

variable {arguments : List String}

theorem substitute_cons {c : Char} {rest : List Char}
    (h : ∀ number, ¬placeholder number <+: c :: rest) :
    substitute arguments (c :: rest) = c :: substitute arguments rest := by
  have hnone : (arguments.zipIdx.find? fun entry => (placeholder entry.2).isPrefixOf (c :: rest)) =
      none := by
    refine List.find?_eq_none.2 fun entry _ hprefix => ?_
    exact h entry.2 (List.isPrefixOf_iff_prefix.1 hprefix)
  rw [substitute, hnone]

/-- A placeholder is replaced by its argument. -/
theorem substitute_placeholder {number : Nat} {argument : String} (h : arguments[number]? = some argument)
    (rest : List Char) :
    substitute arguments (placeholder number ++ rest) =
      argument.toList ++ substitute arguments rest := by
  obtain ⟨c, chars, hcons⟩ := List.exists_cons_of_ne_nil (placeholder_ne_nil number)
  have hfind : (arguments.zipIdx.find? fun entry =>
      (placeholder entry.2).isPrefixOf (placeholder number ++ rest)) = some (argument, number) := by
    have hsome : (arguments.zipIdx.find? fun entry =>
        (placeholder entry.2).isPrefixOf (placeholder number ++ rest)).isSome := by
      refine List.find?_isSome.2 ⟨(argument, number), List.mem_zipIdx_iff_getElem?.2 h, ?_⟩
      exact List.isPrefixOf_iff_prefix.2 (List.prefix_append _ _)
    obtain ⟨⟨found, other⟩, hfound⟩ := Option.isSome_iff_exists.1 hsome
    -- only the placeholder that stands there can have been found
    have hprefix := List.find?_some hfound
    dsimp only at hprefix
    obtain rfl : other = number := number_unique (List.isPrefixOf_iff_prefix.1 hprefix)
    have hmem : arguments[other]? = some found :=
      List.mem_zipIdx_iff_getElem?.1 (List.mem_of_find?_eq_some hfound)
    rw [hfound, Option.some.inj (hmem.symm.trans h)]
  have hdrop : (chars ++ rest).drop ((placeholder number).length - 1) = rest := by
    rw [hcons]
    exact List.drop_left
  rw [show placeholder number ++ rest = c :: (chars ++ rest) by rw [hcons]; rfl] at hfind ⊢
  rw [substitute, hfind]
  dsimp only
  rw [hdrop]

theorem substitute_text {chars rest : List Char} (h : DigitFree chars)
    (hrest : ∀ c ∈ rest.head?, c.isDigit = false) :
    substitute arguments (chars ++ rest) = chars ++ substitute arguments rest := by
  induction chars with
  | nil => rfl
  | cons c chars ih =>
    rw [DigitFree, List.forall_mem_cons] at h
    have hnext := DigitFree.head h.2 hrest
    rw [List.cons_append, substitute_cons fun number => not_prefix_of_head number fun _ => hnext,
      ih h.2, List.cons_append]

/-- Arguments that are put in at the same time are in the places of their placeholders. -/
theorem substitute_render {pieces : List Piece} (h : ∀ piece ∈ pieces, piece.Plain)
    (hn : ∀ number, .hole number ∈ pieces → number < arguments.length) :
    substitute arguments (render pieces) = render (pieces.map (Piece.fill 0 arguments)) := by
  induction pieces with
  | nil =>
    change substitute arguments [] = []
    rw [substitute]
  | cons piece pieces ih =>
    rw [List.forall_mem_cons] at h
    rw [List.map_cons, render_cons, render_cons,
      ← ih h.2 fun number hm => hn number (List.mem_cons_of_mem _ hm)]
    cases piece with
    | text chars => exact substitute_text h.1 (isDigit_head_render h.2)
    | hole number =>
      obtain ⟨argument, hargument⟩ : ∃ argument, arguments[number]? = some argument :=
        ⟨_, List.getElem?_eq_getElem (hn number List.mem_cons_self)⟩
      have hfill : (Piece.hole number).fill 0 arguments = .text argument.toList := by
        simp [Piece.fill, hargument]
      rw [hfill]
      exact substitute_placeholder hargument _

end

/-- Where a template is made of plain pieces with an argument for each placeholder, and no argument but
the last has a digit, putting the arguments in one after the other is putting them in at the same
time. -/
theorem fillFrom_eq_substitute {arguments : List String} {pieces : List Piece}
    (h : ∀ piece ∈ pieces, piece.Plain)
    (hn : ∀ number, .hole number ∈ pieces → number < arguments.length)
    (ha : ∀ argument ∈ arguments.dropLast, DigitFree argument.toList) :
    fillFrom 0 (render pieces) arguments = substitute arguments (render pieces) := by
  rw [fillFrom_render ha 0 h, substitute_render h hn]

/-- A placeholder in an argument that is not the last is filled with a later one. -/
example : fill "\x7b0\x7d, \x7b1\x7d" ["\x7b1\x7d", "a"] = "a, a" := by decide +kernel

end JavaNames.Diagnostic
