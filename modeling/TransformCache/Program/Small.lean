/-
A small machine: the shell and a few tools, and nothing else to be started.

It is one machine among all others, to run examples on. Its programs are found by their names, or
by paths to the two directories that they are in. No file on the disk may be run.
-/
import TransformCache.Program.Shell

namespace TransformCache.Program.Small

/-- The directories that programs are found in. -/
def directories : List String := ["/bin", "/usr/bin"]

/-- A program that is named by a path. -/
def atPath (disk : FileSystem) (p : FilePath) : Except FileError (Given → Left) :=
  let program :=
    match p.parent?, p.fileName? with
    | some directory, some name =>
      if directory.text ∈ directories then find? name else none
    | _, _ => none
  match program, disk.lookUp p with
  | some program, _ => .ok program
  | none, .ok _ => .error .permissionDenied
  | none, .error reason => .error reason

/-- The program that a command names: by a path if there is a slash in it, else by its name. -/
def locate (disk : FileSystem) (name : String) : Except FileError (Given → Left) :=
  if name.toList.contains '/' then atPath disk ⟨name⟩
  else if name = "." ∨ name = ".." then .error .permissionDenied
  else if FileSystem.nameLimit < (Utf8.encode name).length then .error .nameTooLong
  else
    match find? name with
    | some program => .ok program
    | none => .error .notFound

end Small

/-- The machine that has these programs. -/
def small : Machine := fun name given =>
  match Small.locate given.disk name with
  | .ok program => .ended (program given)
  | .error reason => .refused reason.text

end TransformCache.Program
