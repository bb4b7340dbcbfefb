/-
The files of a run. A path that names a file stands for the file, whatever its name; one that names a
directory stands for the source files below it. Files that fit a pattern are left out in both cases, and
each file is taken once. What a pattern is, is left open.
-/
import JavaNames.Command.Options
import JavaNames.Files.FileTree
import JavaNames.Files.GlobText
import JavaNames.Files.Nesting

namespace JavaNames.Command

open Files (Found Glob)

/-- Why a run comes to no report. -/
inductive RunError where
  | badPattern (pattern : String)
  | patternTooDeep
  | missingPath (path : String)
  | unreadable (path : String)
  | analysis (cause : AnalysisError)
deriving DecidableEq

/-- What the error says first. -/
def RunError.message : RunError → String
  | badPattern pattern => s!"invalid --exclude glob '{pattern}'"
  | patternTooDeep => "failed to build --exclude matcher"
  | missingPath path => s!"input path '{path}' does not exist"
  | unreadable path => s!"failed to read {path}"
  | analysis cause => cause.headline

/-! ## Patterns -/

/-- A language of patterns for paths: which texts are patterns, which patterns can be held against a path
together, and whether a path fits one of them. -/
structure PatternLanguage where
  Pattern : Type
  Matcher : Type
  ofText? : String → Option Pattern
  matcher? : List Pattern → Option Matcher
  fits : Matcher → String → Bool

/-- The language of globs. Globs that are nested too deeply cannot be held against a path. -/
def globs : PatternLanguage where
  Pattern := Glob
  Matcher := List Glob
  ofText? := Glob.ofText?
  matcher? := fun globs => if globs.any Glob.isTooDeep then none else some globs
  fits := fun globs path => globs.any fun glob => glob.fits path

/-- The pattern with a text. -/
def pattern (language : PatternLanguage) (text : String) : Except RunError language.Pattern :=
  match language.ofText? text with
  | none => .error (.badPattern text)
  | some pattern => .ok pattern

/-- What the files to leave out fit. A text that is no pattern is an error before patterns that cannot be
held against a path, wherever it stands. -/
def exclusions (language : PatternLanguage) (patterns : List String) :
    Except RunError language.Matcher := do
  match language.matcher? (← patterns.mapM (pattern language)) with
  | none => .error .patternTooDeep
  | some matcher => .ok matcher

/-! ## Files -/

/-- The files that a path stands for. -/
def filesOf (excluded : String → Bool) (find : String → Option Found) (path : String) :
    Except RunError (List String) :=
  match find path with
  | none => .error (.missingPath path)
  | some .file => .ok ([path].filter fun file => !excluded file)
  | some (.directory names) =>
    .ok (((names.filter Files.isSource).map (Files.join path)).filter fun file => !excluded file)

/-- The files that paths stand for, in order. -/
def discover (excluded : String → Bool) (find : String → Option Found) (paths : List String) :
    Except RunError (List String) :=
  (paths.mapM (filesOf excluded find)).map fun files => Files.ordered files.flatten

end JavaNames.Command
