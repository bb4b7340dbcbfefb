/-
The command line. Arguments are read from the left; one that begins with a dash is an option, and the
others are paths. The values of an option that stand in an argument of their own, and paths, are taken
in when the next option begins or the arguments end, so that an unknown option is reported before a
value that is not fit.
-/
import JavaNames.Analysis.Basic

namespace JavaNames.Command

/-! ## Options -/

/-- How a run is reported. -/
inductive Format where
  | text
  | json
deriving DecidableEq

/-- The format with a name. -/
def Format.ofName? : String → Option Format
  | "text" => some .text
  | "json" => some .json
  | _ => none

/-- What a run is asked to do. -/
structure Options where
  paths : List String
  exclude : List String := []
  format : Format := .text
  unresolvedOnly : Bool := false
  noColour : Bool := false
  /-- The number of files that may be analysed at the same time. It never changes a report. -/
  jobs : Option Nat := none
  showScopes : Bool := false
  allowDuplicates : Bool := false
deriving DecidableEq

/-- What the analysis of a file reports. -/
def Options.analysis (options : Options) : AnalysisOptions :=
  { bind := { reportDuplicates := !options.allowDuplicates }
    unresolvedOnly := options.unresolvedOnly
    showScopes := options.showScopes }

/-! ## Names of options -/

/-- An option that is on or off. -/
inductive Flag where
  | unresolvedOnly
  | noColour
  | showScopes
  | allowDuplicates
deriving DecidableEq

/-- An option that has a value. -/
inductive Setting where
  | exclude
  | format
  | jobs
deriving DecidableEq

/-- What an option asks for. -/
inductive Wish where
  | flag (flag : Flag)
  | setting (setting : Setting)
  | help
  | version
deriving DecidableEq

/-- The option with a long name. -/
def Wish.ofLong? : String → Option Wish
  | "exclude" => some (.setting .exclude)
  | "format" => some (.setting .format)
  | "jobs" => some (.setting .jobs)
  | "unresolved-only" => some (.flag .unresolvedOnly)
  | "no-color" => some (.flag .noColour)
  | "show-scopes" => some (.flag .showScopes)
  | "allow-duplicates" => some (.flag .allowDuplicates)
  | "help" => some .help
  | "version" => some .version
  | _ => none

/-- The option with a letter. -/
def Wish.ofLetter? : Char → Option Wish
  | 'j' => some (.setting .jobs)
  | 'h' => some .help
  | 'V' => some .version
  | _ => none

/-! ## What keeps a command line from being run -/

/-- What is wrong with a command line. -/
inductive Misuse where
  | noPaths
  | unknownOption
  | missingValue
  | emptyPath
  | unknownFormat
  | badNumber
  | repeated
  | unwantedValue
deriving DecidableEq

/-- What is said about a command line that is not in order. -/
def Misuse.message : Misuse → String
  | noPaths => "a path is required"
  | unknownOption => "there is an option without a meaning"
  | missingValue => "an option lacks its value"
  | emptyPath => "a path is empty"
  | unknownFormat => "the format is text or json"
  | badNumber => "the number of jobs is not a number"
  | repeated => "an option is given twice"
  | unwantedValue => "an option has no value"

/-- Why a command line does not lead to a run. -/
inductive Stop where
  | help
  | version
  | misuse (cause : Misuse)
deriving DecidableEq

/-! ## Arguments that have been read -/

/-- What has been read and not been taken in: an option with the value that it has so far, or
paths. -/
inductive Pending where
  | nothing
  | setting (setting : Setting) (value : Option String)
  | paths (paths : List String)
deriving DecidableEq

/-- What the arguments so far ask for. -/
structure Reading where
  paths : List String := []
  exclude : List String := []
  format : Option Format := none
  jobs : Option Nat := none
  flags : List Flag := []
  pending : Pending := .nothing
deriving DecidableEq

/-- The largest number of jobs, the largest word of 64 bits. -/
def maxJobs : Nat := 18446744073709551615

/-- The number with decimal digits, which a plus may precede, as far as it is a number of jobs. -/
def number? (text : String) : Option Nat :=
  let digits : List Char := match text.toList with
    | '+' :: rest => rest
    | rest => rest
  let value := digits.foldl (fun n c => 10 * n + (c.toNat - '0'.toNat)) 0
  if digits ≠ [] ∧ digits.all Char.isDigit ∧ value ≤ maxJobs then some value else none

namespace Reading

/-- Takes in the value of an option. An option other than a pattern to exclude is given once. -/
def withValue (reading : Reading) (setting : Setting) (value : String) : Except Stop Reading :=
  match setting with
  | .exclude => .ok { reading with exclude := reading.exclude ++ [value] }
  | .format =>
    if reading.format.isSome then .error (.misuse .repeated)
    else
      match Format.ofName? value with
      | none => .error (.misuse .unknownFormat)
      | some format => .ok { reading with format := some format }
  | .jobs =>
    if reading.jobs.isSome then .error (.misuse .repeated)
    else
      match number? value with
      | none => .error (.misuse .badNumber)
      | some jobs => .ok { reading with jobs := some jobs }

/-- Takes in what is pending. -/
def settle (reading : Reading) : Except Stop Reading :=
  let rest := { reading with pending := .nothing }
  match reading.pending with
  | .nothing => .ok rest
  | .setting _ none => .error (.misuse .missingValue)
  | .setting setting (some value) => rest.withValue setting value
  | .paths paths =>
    if paths.contains "" then .error (.misuse .emptyPath)
    else .ok { rest with paths := rest.paths ++ paths }

/-- Reads an argument that is a path. -/
def withPath (reading : Reading) (path : String) : Except Stop Reading :=
  match reading.pending with
  | .paths paths => .ok { reading with pending := .paths (paths ++ [path]) }
  | _ => reading.settle.map fun settled => { settled with pending := .paths [path] }

/-- Reads an argument that is not an option: the value that an option waits for, or a path. -/
def withPlain (reading : Reading) (argument : String) : Except Stop Reading :=
  match reading.pending with
  | .setting setting none => .ok { reading with pending := .setting setting (some argument) }
  | _ => reading.withPath argument

/-- Reads an option that has a value. -/
def withSetting (reading : Reading) (setting : Setting) (value : Option String) :
    Except Stop Reading := do
  let settled ← reading.settle
  match value with
  | some value => settled.withValue setting value
  | none => .ok { settled with pending := .setting setting none }

/-- Reads an option that is on or off. -/
def withFlag (reading : Reading) (flag : Flag) : Except Stop Reading := do
  let settled ← reading.settle
  if settled.flags.contains flag then .error (.misuse .repeated)
  else .ok { settled with flags := flag :: settled.flags }

/-- Reads an option without a value of its own argument. -/
def withWish (reading : Reading) : Wish → Except Stop Reading
  | .flag flag => reading.withFlag flag
  | .setting setting => reading.withSetting setting none
  | .help => reading.settle.bind fun _ => .error .help
  | .version => reading.settle.bind fun _ => .error .version

/-- Reads an option with a long name, from behind its dashes. A value may follow the name behind an
equals sign. -/
def withLong (reading : Reading) (text : List Char) : Except Stop Reading :=
  let value : Option String :=
    match text.dropWhile (· ≠ '=') with
    | [] => none
    | _ :: rest => some (String.ofList rest)
  match Wish.ofLong? (String.ofList (text.takeWhile (· ≠ '='))), value with
  | none, _ => .error (.misuse .unknownOption)
  | some wish, none => reading.withWish wish
  | some (.setting setting), some value => reading.withSetting setting (some value)
  | some _, some _ => .error (.misuse .unwantedValue)

/-- Reads options of one letter each, from behind their dash. What follows the letter of an option that
has a value is its value, less an equals sign at its start. -/
def withLetters (reading : Reading) : List Char → Except Stop Reading
  | [] => .ok reading
  | letter :: rest =>
    match Wish.ofLetter? letter with
    | none => .error (.misuse .unknownOption)
    | some (.setting setting) =>
      let value : Option String :=
        match rest with
        | [] => none
        | '=' :: value => some (String.ofList value)
        | value => some (String.ofList value)
      reading.withSetting setting value
    | some wish => (reading.withWish wish).bind fun next => next.withLetters rest

/-- Reads an argument before two dashes that stand alone. One dash that stands alone is no option. -/
def withArgument (reading : Reading) (argument : String) : Except Stop Reading :=
  match argument.toList with
  | '-' :: '-' :: name => reading.withLong name
  | '-' :: letter :: rest => reading.withLetters (letter :: rest)
  | _ => reading.withPlain argument

/-- Reads arguments. Behind two dashes that stand alone all are paths. -/
def withArguments (reading : Reading) : List String → Except Stop Reading
  | [] => .ok reading
  | "--" :: rest => rest.foldlM withPath reading
  | argument :: rest => (reading.withArgument argument).bind fun next => next.withArguments rest

/-- The options that have been read; at least one path is needed. -/
def options (reading : Reading) : Except Stop Options :=
  if reading.paths.isEmpty then .error (.misuse .noPaths)
  else
    .ok
      { paths := reading.paths
        exclude := reading.exclude
        format := reading.format.getD .text
        unresolvedOnly := reading.flags.contains .unresolvedOnly
        noColour := reading.flags.contains .noColour
        jobs := reading.jobs
        showScopes := reading.flags.contains .showScopes
        allowDuplicates := reading.flags.contains .allowDuplicates }

end Reading

/-- What a command line asks for. -/
def Options.ofArguments (arguments : List String) : Except Stop Options := do
  let reading ← ({} : Reading).withArguments arguments
  (← reading.settle).options

end JavaNames.Command
