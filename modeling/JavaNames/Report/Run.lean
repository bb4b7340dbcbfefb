/-
The report on a run for programs: the files with their diagnostics and counts.
-/
import JavaNames.Analysis.Basic
import JavaNames.Report.Value

namespace JavaNames.Report

/-- The fields that notes and diagnostics share. -/
def placeFields (file : String) (start length : Nat) (text : String) (severity : Severity)
    (code : Nat) : List (String × Value) :=
  [("file", .text file), ("start", .number start), ("length", .number length),
    ("message_text", .text text), ("category", .text severity.name), ("code", .number code)]

/-- The value of a note. -/
def noteValue (note : Note) : Value :=
  .object (placeFields note.file note.start note.length note.text note.severity note.code)

/-- The value of a diagnostic. Notes are left out where there are none. -/
def diagnosticValue (d : Diagnostic) : Value :=
  .object (placeFields d.file d.start d.length d.text d.severity d.code ++
    if d.notes.isEmpty then [] else [("related_information", .list (d.notes.map noteValue))])

/-- The value of the report on a file. The tree of scopes is left out where there is none. -/
def reportValue (report : FileReport) : Value :=
  .object ([("file", .text report.file),
    ("diagnostics", .list (report.diagnostics.map diagnosticValue)),
    ("symbols", .number report.symbols), ("scopes", .number report.scopes),
    ("uses", .number report.uses), ("unresolved", .number report.unresolved)] ++
    match report.scopeTree with
    | none => []
    | some tree => [("scope_tree", .text tree)])

/-- The report on a run as text for programs. -/
def runValue (reports : List FileReport) : String :=
  (Value.object [("files", .list (reports.map reportValue))]).render 0

end JavaNames.Report
