/-
An engine that is a command: it gets the source on its input, and its output is the code.

The command is a line of words without any quoting; the first names the program. What the program
is told about the file is in two variables. A program that fails rejects the file with what it
wrote to its second output; a program that cannot be started, or whose output is not text, is a
fault of the engine and not of the file. What the programs do is left to the machine.
-/
import TransformCache.Engine
import TransformCache.Program.Basic
import TransformCache.Text.Blank

namespace TransformCache

/-- A command that is run as an engine. -/
structure CommandEngine where
  program : String
  args : List String
  /-- The version of the engine; the command itself if none is named. -/
  version : String
  deriving DecidableEq, Repr

namespace CommandEngine

-- ====================================================== the command

/-- Carries the file's path to the program. -/
def filenameVariable : String := "TRANSLOAD_FILENAME"

/-- Carries the whole request to the program, as JSON. -/
def requestVariable : String := "TRANSLOAD_REQUEST"

def parse (command : String) (version : Option String) : Except TransformError CommandEngine :=
  match Text.words command with
  | [] => .error (.engine "Empty engine command")
  | program :: args => .ok ⟨program, args, version.getD command⟩

-- ====================================================== running

/-- The variables of the program: those around it, and the two that describe the file. -/
def programVariables (around : Variables) (request : TransformRequest) : Variables := fun name =>
  if name = filenameVariable then some request.filename.text
  else if name = requestVariable then some request.toJson.compact
  else around name

/-- What is said of a zero byte where the system takes none. -/
def zeroByteText : String := "nul byte found in provided data"

/-- True for a text with a zero byte. -/
def hasZero (text : String) : Bool := text.toList.contains '\x00'

/-- The words for bytes that are no text. -/
def faultText : Utf8.Fault → String
  | .invalid start width =>
    "invalid utf-8 sequence of " ++ toString width ++ " bytes from index " ++ toString start
  | .incomplete start => "incomplete utf-8 byte sequence from index " ++ toString start

/-- What the engine makes of what its program left. -/
def outcome (request : TransformRequest) (left : Program.Left) : Except TransformError Output :=
  if left.status.isSuccess then
    match Utf8.decode left.output with
    | .ok code => .ok ⟨code, none⟩
    | .error fault => .error (.engine ("Engine output is not UTF-8: " ++ faultText fault))
  else
    .error (.rejected request.filename
      (Text.trim (Utf8.decodeLossy left.errors) ++ " (" ++ left.status.text ++ ")"))

/-- What the engine makes of a source, with its program started on a machine. -/
def transform (e : CommandEngine) (machine : Program.Machine) (disk : FileSystem)
    (around : Variables) (source : String) (request : TransformRequest) :
    Except TransformError Output :=
  let refused (reason : String) : Except TransformError Output :=
    .error (.engine ("Failed to start " ++ e.program ++ ": " ++ reason))
  if hasZero e.program ∨ e.args.any hasZero ∨ hasZero request.filename.text then
    refused zeroByteText
  else
    match machine e.program ⟨disk, e.args, programVariables around request, Utf8.encode source⟩ with
    | .refused reason => refused reason
    | .lost reason => .error (.io reason)
    | .ended left => outcome request left

/-- The command as an engine on a machine, with a disk and variables. -/
def toEngine (e : CommandEngine) (machine : Program.Machine) (disk : FileSystem)
    (around : Variables) : Engine where
  version := e.version
  transform := e.transform machine disk around

end CommandEngine

end TransformCache
