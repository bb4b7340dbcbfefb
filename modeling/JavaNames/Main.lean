/-
The command. It looks up the named paths, reads the files that are found, and prints the answer to the
command line; what the answer is does not depend on anything but these.
-/
import JavaNames.Command.Run

namespace JavaNames.Main

open Command (Options)
open Files (Found)

/-- The names of the files below a directory, seen from the directory. -/
def namesBelow (path : String) : IO (List String) := do
  let directory := System.mkFilePath [path]
  let entries ← directory.walkDir
  let files ← entries.filterM fun entry => return !(← entry.isDir)
  return files.toList.map fun file => (file.toString.drop (path.length + 1)).toString

/-- What there is under a path. -/
def find (path : String) : IO (Option Found) := do
  let place := System.mkFilePath [path]
  if path.isEmpty || !(← place.pathExists) then return none
  else if ← place.isDir then return some (.directory (← namesBelow path))
  else return some .file

/-- What a file holds, if it can be read. -/
def read (path : String) : IO (Option ByteArray) :=
  try
    return some (← IO.FS.readBinFile (System.mkFilePath [path]))
  catch _ => return none

/-- What was noted for a path. -/
def noted {α : Type} (notes : List (String × Option α)) (path : String) : Option α :=
  (notes.lookup path).join

/-- Notes for each path what there is to note. -/
def noteAll {α : Type} (look : String → IO (Option α)) (paths : List String) :
    IO (List (String × Option α)) :=
  paths.mapM fun path => return (path, ← look path)

/-- Colour is for terminals, and not for text that is read by a program. -/
def ink (terminal : Bool) (options : Options) : Report.Ink :=
  if terminal && !options.noColour then .coloured else .plain

/-- The places and the contents of the files of a run. -/
def gather (arguments : List String) :
    IO ((String → Option Found) × (String → Option ByteArray)) := do
  match Options.ofArguments arguments with
  | .error _ => return (fun _ => none, fun _ => none)
  | .ok options =>
    let places ← noteAll find options.paths
    let files := (Command.sources Command.globs options (noted places)).toOption.getD []
    let contents ← noteAll read files
    return (noted places, noted contents)

/-- Prints the answer to a command line and gives its exit code. -/
def respond (arguments : List String) : IO UInt32 := do
  let (find, read) ← gather arguments
  let stdout ← IO.getStdout
  let outcome := Command.answer Command.globs Options.ofArguments arguments (ink (← stdout.isTty)) find read
  IO.print outcome.output
  stdout.flush
  if let some complaint := outcome.complaint then IO.eprintln complaint
  return outcome.code.toUInt32

end JavaNames.Main

/-- Answers the command line. -/
def main (arguments : List String) : IO UInt32 := JavaNames.Main.respond arguments
