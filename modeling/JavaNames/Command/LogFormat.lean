/-
The formats of the log. Their names are read without regard to case and to white space around them;
only ASCII letters have a lower case that occurs in these names.
-/
import JavaNames.Text.Blank

namespace JavaNames

/-- How the log is written. -/
inductive LogFormat where
  | text
  | tree
  | json
deriving DecidableEq

/-- The format with a name; any other name gives plain text. -/
def LogFormat.ofName (name : String) : LogFormat :=
  match (Text.trimmed name).map Char.toLower with
  | "tree" => .tree
  | "json" => .json
  | _ => .text

end JavaNames
