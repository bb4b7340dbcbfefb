/-
What stands between tokens: blanks and comments. `gap` splits a text behind the blanks and comments
at its start. Main statement: what is skipped and what follows are the text, in this order.
-/

namespace JavaNames.Token

/-! ## Comments -/

/-- The characters that separate tokens. -/
def isSpace (c : Char) : Bool :=
  c = ' ' || c = '\t' || c = '\n' || c = '\r' || c = '\x0c'

/-- Splits what follows two slashes behind the end of the line. -/
def splitLine : List Char → List Char × List Char
  | [] => ([], [])
  | c :: rest =>
    if c = '\n' then ([c], rest) else (c :: (splitLine rest).1, (splitLine rest).2)

/-- Splits what follows the opening of a comment behind its closing, where there is one. -/
def splitComment? : List Char → Option (List Char × List Char)
  | [] => none
  | '*' :: '/' :: rest => some (['*', '/'], rest)
  | c :: rest => (splitComment? rest).map fun (inside, behind) => (c :: inside, behind)

theorem splitLine_append (cs : List Char) : (splitLine cs).1 ++ (splitLine cs).2 = cs := by
  fun_induction splitLine cs <;> simp_all

theorem append_of_splitComment? {cs inside behind : List Char}
    (h : splitComment? cs = some (inside, behind)) : inside ++ behind = cs := by
  fun_induction splitComment? cs generalizing inside behind with
  | case1 => simp at h
  | case2 rest =>
    obtain ⟨rfl, rfl⟩ : ['*', '/'] = inside ∧ rest = behind := by simpa using h
    rfl
  | case3 c rest _ ih =>
    obtain ⟨⟨i, b⟩, hi, he⟩ := Option.map_eq_some_iff.1 h
    simp only [Prod.mk.injEq] at he
    obtain ⟨rfl, rfl⟩ := he
    simp [ih hi]

/-! ## Gaps -/

/-- What stands before a token: the skipped text, what follows it, and the last comment of the
skipped text when nothing closes it. -/
structure Gap where
  skipped : List Char
  rest : List Char
  unclosed : Option (List Char)

/-- A gap with more characters in front. -/
def Gap.prepend (cs : List Char) (gap : Gap) : Gap := { gap with skipped := cs ++ gap.skipped }

/-- The blanks and comments at the start of a text. -/
def gap : List Char → Gap
  | [] => ⟨[], [], none⟩
  | '/' :: '/' :: rest => (gap (splitLine rest).2).prepend ('/' :: '/' :: (splitLine rest).1)
  | '/' :: '*' :: rest =>
    match _h : splitComment? rest with
    | some (inside, behind) => (gap behind).prepend ('/' :: '*' :: inside)
    | none => ⟨'/' :: '*' :: rest, [], some ('/' :: '*' :: rest)⟩
  | c :: rest => if isSpace c then (gap rest).prepend [c] else ⟨[], c :: rest, none⟩
  termination_by cs => cs.length
  decreasing_by
    · have := congrArg List.length (splitLine_append rest)
      simp only [List.length_append, List.length_cons] at this ⊢
      omega
    · have := congrArg List.length (append_of_splitComment? _h)
      simp only [List.length_append, List.length_cons] at this ⊢
      omega
    · simp

@[simp] theorem Gap.skipped_prepend (cs : List Char) (g : Gap) :
    (g.prepend cs).skipped = cs ++ g.skipped := rfl

@[simp] theorem Gap.rest_prepend (cs : List Char) (g : Gap) : (g.prepend cs).rest = g.rest := rfl

@[simp] theorem Gap.unclosed_prepend (cs : List Char) (g : Gap) :
    (g.prepend cs).unclosed = g.unclosed := rfl

/-- A gap loses nothing. -/
theorem gap_append (cs : List Char) : (gap cs).skipped ++ (gap cs).rest = cs := by
  fun_induction gap cs with
  | case1 => rfl
  | case2 rest ih => simp [ih, splitLine_append]
  | case3 rest inside behind h ih => simp [ih, append_of_splitComment? h]
  | case4 => simp
  | case5 c rest _ _ hc ih => simp [ih]
  | case6 => simp

end JavaNames.Token
