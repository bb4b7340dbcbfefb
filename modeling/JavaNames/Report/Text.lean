/-
Reports for people. A diagnostic stands in one line with its place and is followed by the source line
with a mark under the span. The texts of the files are registered first; the text registered last for
a file counts, and a file that has not been registered is looked up.

Writing is a state transformer: what has been looked up, and where the lines of a text start, is kept
for the next diagnostic.
-/
import JavaNames.Analysis.Basic
import JavaNames.Report.Style
import JavaNames.Text.LineMap

namespace JavaNames.Report

open JavaNames.Text (LineMap)

/-! ## The reporter -/

/-- How reports are written: in which ink, what the files hold that can be looked up, and what is known
so far: the texts of files, and where the lines of these start. -/
structure Reporter where
  ink : Ink
  disk : String → Option String
  sources : List (String × String)
  starts : List (String × List Nat)

/-- What writes a part of a report. -/
abbrev Writer := StateM Reporter

namespace Reporter

/-- A reporter that knows no file yet and can look up some. -/
def fresh (ink : Ink) (disk : String → Option String) : Reporter := ⟨ink, disk, [], []⟩

/-- A reporter that knows no file and has none to look up. -/
def new (ink : Ink) : Reporter := fresh ink fun _ => none

/-- Registers the text of a file. What was known of the lines of another text goes. -/
def addSource (reporter : Reporter) (file text : String) : Reporter :=
  { reporter with
    sources := (file, text) :: reporter.sources
    starts := reporter.starts.filter fun entry => entry.1 ≠ file }

/-- The ink that is written in. -/
def currentInk : Writer Ink := return (← get).ink

/-- The text of a file. One that is not known is looked up and kept. -/
def source? (file : String) : Writer (Option String) := do
  match (← get).sources.lookup file with
  | some text => return some text
  | none =>
    match (← get).disk file with
    | some text =>
      modify fun reporter => { reporter with sources := (file, text) :: reporter.sources }
      return some text
    | none => return none

/-- The lines of the text of a file. Where they start is found out once and kept. -/
def linesOf (file text : String) : Writer LineMap := do
  match (← get).starts.lookup file with
  | some starts => return ⟨text, starts⟩
  | none =>
    let map := LineMap.ofSource text
    modify fun reporter => { reporter with starts := (file, map.starts) :: reporter.starts }
    return map

/-- The lines of a file, if its text is known. There is no file without a name. -/
def lines? (file : String) : Writer (Option LineMap) := do
  if file.isEmpty then return none
  match ← source? file with
  | none => return none
  | some text => return some (← linesOf file text)

/-! ## Places -/

/-- The line and column of an offset, from one on. -/
def place (map : LineMap) (offset : Nat) : Nat × Nat :=
  let position := map.position offset
  (position.line + 1, position.character + 1)

/-- A place in a file, if its text is known. -/
def location? (file : String) (offset : Nat) : Writer (Option String) := do
  return (← lines? file).map fun map =>
    let (line, column) := place map offset
    s!"{file}:{line}:{column}"

/-! ## Snippets -/

/-- How many columns a character takes up. -/
def columns (c : Char) : Nat := if c = '\t' then 4 else 1

/-- The marks under the characters of a line from a column on: blanks up to the start of a span, and
tildes up to its end. -/
def marksFrom (start stop : Nat) : Nat → List Char → List Char
  | _, [] => []
  | column, c :: rest =>
    if column ≥ stop then []
    else
      List.replicate (columns c) (if column < start then ' ' else '~') ++
        marksFrom start stop (column + 1) rest

/-- The marks under a span of a line; a span that shows no character has one mark. -/
def marks (start stop : Nat) (line : List Char) : List Char :=
  let marks := marksFrom start stop 1 line
  if marks.contains '~' then marks else marks ++ ['~']

/-- A line with four spaces for each tab. -/
def expandTabs (line : List Char) : List Char :=
  line.flatMap fun c => if c = '\t' then [' ', ' ', ' ', ' '] else [c]

/-- A number with blanks in front, at least three characters wide. -/
def padded (n : Nat) : String :=
  let digits := toString n
  "".pushn ' ' (3 - digits.length) ++ digits

/-- The end of a span of bytes. Offsets are words of 32 bits. -/
def spanStop (start length : Nat) : Nat := (start + length) % 4294967296

/-- The column up to which a line is marked for a span that ends at an offset. A span that goes on over
the end of its line is marked up to there. -/
def stopColumn (map : LineMap) (line : Nat) (text : List Char) (stop : Nat) : Nat :=
  let (stopLine, column) := place map stop
  if stopLine = line then column else text.length + 1

/-- The line of a span and the marks under it. -/
def snippet (ink : Ink) (map : LineMap) (start length : Nat) : String :=
  let (line, column) := place map start
  let text := (map.lineText (line - 1)).toList
  let number := padded line
  let shown := String.ofList (expandTabs text)
  let marked := marks column (stopColumn map line text (spanStop start length)) text
  let under := ink .alarm (String.ofList marked)
  s!"\n  {number}   {shown}\n        {under}"

/-- The snippet of a span in a file, if its text is known. A span without bytes has none. -/
def snippet? (file : String) (start length : Nat) : Writer (Option String) := do
  if length = 0 then return none
  let ink ← currentInk
  return (← lines? file).map fun map => snippet ink map start length

/-! ## Diagnostics -/

/-- The word for a severity. -/
def severityText (ink : Ink) (severity : Severity) : String :=
  let style :=
    match severity with
    | .error => Style.bold 31
    | .warning => Style.bold 33
    | .suggestion => Style.bold 34
    | .message => Style.bold 36
  ink style severity.name

/-- The number of a rule behind a space; zero is not shown. -/
def codeText (ink : Ink) (code : Nat) : String :=
  if code = 0 then ""
  else
    let number := toString code
    " " ++ ink .number ("JS" ++ number)

/-- Writes a note below a diagnostic. -/
def writeNote (note : Note) : Writer String := do
  let related := (← currentInk) .faint "  Related"
  let location := (← location? note.file note.start).getD note.file
  let text := note.text
  let snippet := (← snippet? note.file note.start note.length).getD ""
  return s!"\n{related}: {location} - {text}{snippet}"

/-- Writes a diagnostic with its snippet and notes. -/
def writeDiagnostic (diagnostic : Diagnostic) : Writer String := do
  let ink ← currentInk
  let nowhere := if diagnostic.file.isEmpty then "<unknown>" else diagnostic.file
  let location := (← location? diagnostic.file diagnostic.start).getD nowhere
  let severity := severityText ink diagnostic.severity
  let code := codeText ink diagnostic.code
  let text := diagnostic.text
  let snippet := (← snippet? diagnostic.file diagnostic.start diagnostic.length).getD ""
  let notes := "".intercalate (← diagnostic.notes.mapM writeNote)
  return s!"{location} - {severity}{code}: {text}{snippet}{notes}"

/-- Writes diagnostics, each from a new line on. -/
def writeDiagnostics (diagnostics : List Diagnostic) : Writer String := do
  return "\n".intercalate (← diagnostics.mapM writeDiagnostic)

/-- What a reporter writes for a diagnostic. -/
def diagnosticText (reporter : Reporter) (diagnostic : Diagnostic) : String :=
  ((writeDiagnostic diagnostic).run reporter).1

/-! ## Whole runs -/

/-- Registers the texts of the files of a run. -/
def addReports (reporter : Reporter) (reports : List FileReport) : Reporter :=
  reports.foldl (fun reporter report => reporter.addSource report.file report.source) reporter

/-- The name of a file above the tree of its scopes. -/
def treeText (ink : Ink) (report : FileReport) : String :=
  match report.scopeTree with
  | none => ""
  | some tree => ink .heading report.file ++ "\n" ++ tree ++ "\n"

/-- The line at the end of a report. -/
def summary (ink : Ink) (reports : List FileReport) : String :=
  let found := reports.flatMap (·.diagnostics)
  let count := reports.length
  let files := if count = 1 then "file" else "files"
  let uses := reports.foldl (fun count report => count + report.uses) 0
  let unresolved := reports.foldl (fun count report => count + report.unresolved) 0
  let errors := found.countP Diagnostic.isError
  let warnings := found.countP fun diagnostic => diagnostic.severity = .warning
  let text := s!"{count} {files}, {uses} name uses, {unresolved} unresolved, " ++
    s!"{errors} errors, {warnings} warnings"
  if errors > 0 then ink .alarm text else text

/-- Writes the report on a run: the trees of scopes, the diagnostics, and the summary. -/
def writeRun (reports : List FileReport) : Writer String := do
  modify fun reporter => reporter.addReports reports
  let ink ← currentInk
  let trees := "".intercalate (reports.map (treeText ink))
  let found ← writeDiagnostics (reports.flatMap (·.diagnostics))
  return trees ++ (if found.isEmpty then "" else found ++ "\n\n") ++ summary ink reports

/-- What a new reporter writes on a run. -/
def runText (ink : Ink) (reports : List FileReport) : String := ((writeRun reports).run (new ink)).1

end Reporter

end JavaNames.Report
