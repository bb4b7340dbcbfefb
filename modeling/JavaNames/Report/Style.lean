/-
Colours and other styles of terminal text. An ink is a way to show a text in a style. On a terminal a
styled text stands between a sequence that turns the style on and one that turns all styles off; a text
that turns the styles off itself gets its style turned on again behind each such place.
-/

namespace JavaNames.Report

/-- A style: the codes that turn it on. -/
structure Style where
  codes : List Nat
deriving DecidableEq

namespace Style

/-- The sequence that turns all styles off. -/
def reset : List Char := "\x1b[0m".toList

/-- The sequence that turns a style on. -/
def opening (style : Style) : List Char :=
  "\x1b[".toList ++ (";".intercalate (style.codes.map toString)).toList ++ ['m']

/-- Turns a style on again behind each place where a text turns all styles off. -/
def reopen (style : Style) : List Char → List Char
  | [] => []
  | c :: rest =>
    if reset.isPrefixOf (c :: rest) then
      reset ++ style.opening ++ reopen style (rest.drop (reset.length - 1))
    else c :: reopen style rest
  termination_by text => text.length
  decreasing_by
    · simp only [List.length_drop, List.length_cons]; omega
    · simp

/-- Names of files above their scopes. -/
def heading : Style := ⟨[1, 4]⟩

/-- The mark under a span, and a summary that counts errors. -/
def alarm : Style := ⟨[31]⟩

/-- What is less important. -/
def faint : Style := ⟨[2]⟩

/-- Numbers of rules. -/
def number : Style := ⟨[94]⟩

/-- Words for a severity: bold red for errors, bold yellow for warnings, and so on. -/
def bold (colour : Nat) : Style := ⟨[1, colour]⟩

end Style

/-- A way to show a text in a style. -/
abbrev Ink := Style → String → String

namespace Ink

/-- Text without styles. -/
def plain : Ink := fun _ text => text

/-- Text with the sequences that a terminal knows. -/
def coloured : Ink := fun style text =>
  String.ofList (style.opening ++ style.reopen text.toList ++ Style.reset)

end Ink

end JavaNames.Report
