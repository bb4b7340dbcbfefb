/-
A run: the files are found and analysed, and the reports are printed. The exit code tells whether there
is an error among the diagnostics or, when nothing but unresolved names is asked for, whether there is
such a name.
-/
import JavaNames.Command.Discovery
import JavaNames.Report.Run
import JavaNames.Report.Text

namespace JavaNames.Command

open Files (Found)

/-! ## The reports of a run -/

/-- Analyses a file with some content. -/
def analyzeFile (options : AnalysisOptions) (read : String → Option ByteArray) (path : String) :
    Except RunError FileReport :=
  match (read path).bind String.fromUTF8? with
  | none => .error (.unreadable path)
  | some source => (analyze path source options).mapError .analysis

/-- The files that a run looks at. -/
def sources (language : PatternLanguage) (options : Options) (find : String → Option Found) :
    Except RunError (List String) := do
  let matcher ← exclusions language options.exclude
  discover (language.fits matcher) find options.paths

/-- The reports on the files of a run, in the order of the files. -/
def run (language : PatternLanguage) (options : Options) (find : String → Option Found)
    (read : String → Option ByteArray) : Except RunError (List FileReport) := do
  (← sources language options find).mapM (analyzeFile options.analysis read)

/-! ## The answer to a command line -/

/-- What a run prints on success. -/
def printed (format : Format) (ink : Report.Ink) (reports : List FileReport) : String :=
  match format with
  | .text => Report.Reporter.runText ink reports
  | .json => Report.runValue reports

/-- The exit code of a run that comes to reports. -/
def exitCode (unresolvedOnly : Bool) (reports : List FileReport) : Nat :=
  if reports.any FileReport.hasErrors then 1
  else if unresolvedOnly && reports.any fun report => 0 < report.unresolved then 2
  else 0

/-- What is left of a run: its exit code, what it prints, and what it says about a failure. -/
structure Outcome where
  code : Nat
  output : String
  complaint : Option String
deriving DecidableEq

/-- The name of the command with its version. -/
def version : String := "jscope 0.1.0"

/-- How the command is used. -/
def usage : String :=
  "Build scope trees for Java-like sources and resolve every simple name

Usage: jscope [OPTIONS] <PATH>...

Arguments:
  <PATH>...  Source files or directories. Directories are searched for `*.java`

Options:
      --exclude <GLOB>    Skip files whose path matches this glob. May be repeated
      --format <FORMAT>   Output format [default: text] [possible values: text, json]
      --unresolved-only   Report only names that resolve to no declaration
      --no-color          Disable colored output
  -j, --jobs <N>          Number of worker threads. Defaults to one per core
      --show-scopes       Print the scope tree of every file
      --allow-duplicates  Do not report a declaration that repeats a name in the same scope
  -h, --help              Print help
  -V, --version           Print version"

/-- The outcome of a command line that does not lead to a run. -/
def Stop.outcome : Stop → Outcome
  | help => ⟨0, usage ++ "\n", none⟩
  | version => ⟨0, Command.version ++ "\n", none⟩
  | misuse cause => ⟨2, "", some ("error: " ++ cause.message)⟩

/-- The outcome of a run. -/
def outcome (options : Options) (ink : Report.Ink) :
    Except RunError (List FileReport) → Outcome
  | .error error => ⟨1, "", some ("Error: " ++ error.message)⟩
  | .ok reports =>
    ⟨exitCode options.unresolvedOnly reports, printed options.format ink reports ++ "\n", none⟩

/-- Answers a command line, given what patterns there are and how a command line is read. -/
def answer (language : PatternLanguage) (options? : List String → Except Stop Options)
    (arguments : List String) (ink : Options → Report.Ink) (find : String → Option Found)
    (read : String → Option ByteArray) : Outcome :=
  match options? arguments with
  | .error stop => stop.outcome
  | .ok options => outcome options (ink options) (run language options find read)

end JavaNames.Command
