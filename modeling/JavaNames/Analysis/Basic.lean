/-
The analysis of one source file: its syntax is read, its scopes and symbols are found, and every use
of a name is looked up. The report holds what there is to say about the file, ordered by place.
-/
import JavaNames.Analysis.ScopeTree
import JavaNames.Binding.Visit
import JavaNames.Grammar.Unit

namespace JavaNames

/-! ## Options and reports -/

/-- What an analysis reports. -/
structure AnalysisOptions where
  bind : BindOptions := {}
  /-- Report nothing but names without a declaration. -/
  unresolvedOnly : Bool := false
  /-- Add the tree of the scopes. -/
  showScopes : Bool := false
deriving DecidableEq

/-- The report on a file. -/
structure FileReport where
  file : String
  source : String
  diagnostics : List Diagnostic
  symbols : Nat
  scopes : Nat
  uses : Nat
  unresolved : Nat
  scopeTree : Option String
deriving DecidableEq

/-- Whether the report holds an error. -/
def FileReport.hasErrors (report : FileReport) : Bool := report.diagnostics.any Diagnostic.isError

/-! ## Errors -/

/-- Why a file could not be analysed. -/
inductive AnalysisError where
  | nesting (file : String) (cause : Grammar.NestingError)
  | binding (file : String) (cause : BindError)
deriving DecidableEq

namespace AnalysisError

/-- Which file the error is about. -/
def headline : AnalysisError → String
  | nesting file _ => s!"failed to analyze {file}"
  | binding file _ => s!"failed to analyze {file}"

/-- What the error says, from the file down to the cause. -/
def causes (error : AnalysisError) : List String :=
  match error with
  | nesting _ cause => [error.headline, "parse failed: " ++ cause.message, cause.message]
  | binding _ cause => [error.headline, "binding failed: " ++ cause.message, cause.message]

/-- The error with its causes in one line. -/
def message (error : AnalysisError) : String := ": ".intercalate error.causes

end AnalysisError

/-! ## The analysis -/

namespace Analysis

open Grammar (SyntaxUnit)

/-- What there is to say about the use of a name. -/
def useDiagnostic? (syntaxUnit : SyntaxUnit) (bound : BoundUnit) (unresolvedOnly : Bool)
    (use : BoundUnit.Use) : Option Diagnostic :=
  match syntaxUnit.tree.node? use.node, syntaxUnit.tree.name? use.node with
  | some node, some name =>
    let report (rule : Rule) : Diagnostic :=
      .ofRule rule syntaxUnit.file node.start (node.stop - node.start) [name]
    match use.symbol with
    | none => some (report .unresolvedName)
    | some _ =>
      if !unresolvedOnly && bound.isSelfReference syntaxUnit.tree use.node then
        some (report .selfReference)
      else none
  | _, _ => none

/-- Whether a diagnostic comes before another or at the same place: by the offset, then by the number
of its rule. -/
def precedes (a b : Diagnostic) : Bool :=
  a.start < b.start || (a.start = b.start && a.code ≤ b.code)

/-- The diagnostics of a file, those with the same place and number in the order in which they were
found. -/
def diagnostics (syntaxUnit : SyntaxUnit) (bound : BoundUnit) (uses : List BoundUnit.Use)
    (unresolvedOnly : Bool) : List Diagnostic :=
  let declared :=
    if unresolvedOnly then [] else syntaxUnit.diagnostics ++ bound.diagnostics.toList
  let used := uses.filterMap (useDiagnostic? syntaxUnit bound unresolvedOnly)
  (declared ++ used).mergeSort precedes

/-- The report on a file that has been read and bound. -/
def report (syntaxUnit : SyntaxUnit) (bound : BoundUnit) (options : AnalysisOptions) :
    FileReport :=
  let uses := bound.resolveUses syntaxUnit.tree
  { file := syntaxUnit.file
    source := syntaxUnit.text
    diagnostics := diagnostics syntaxUnit bound uses options.unresolvedOnly
    symbols := bound.symbols.size
    scopes := bound.scopes.size
    uses := uses.length
    unresolved := uses.countP fun use => use.symbol.isNone
    scopeTree :=
      if options.showScopes then some (ScopeTree.render bound syntaxUnit.tree syntaxUnit.text)
      else none }

end Analysis

/-- Reads the text of a file and finds its scopes and symbols. -/
def bindSource (file source : String) (options : BindOptions) :
    Except AnalysisError (Grammar.SyntaxUnit × BoundUnit) :=
  match Grammar.parse file source with
  | .error cause => .error (.nesting file cause)
  | .ok syntaxUnit =>
    match syntaxUnit.tree.bind syntaxUnit.root file options with
    | .error cause => .error (.binding file cause)
    | .ok bound => .ok (syntaxUnit, bound)

/-- Analyses the text of a file. -/
def analyze (file source : String) (options : AnalysisOptions) : Except AnalysisError FileReport :=
  (bindSource file source options.bind).map fun (syntaxUnit, bound) =>
    Analysis.report syntaxUnit bound options

end JavaNames
