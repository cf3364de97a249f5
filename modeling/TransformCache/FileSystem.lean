/-
The part of the disk that a program sees: directories, and files with their bytes and the time
of their last change.

A `FileSystem` is a value. What an operation changes is in the value it answers with, and a
failed one can still have changed something: creating a chain of directories stops at the first
that cannot be made. Looking up a path goes from directory to directory, segment by segment, so
the first obstacle on the way is the one that is reported.
-/
import TransformCache.FilePath.Basic
import TransformCache.Text.Utf8

namespace TransformCache

-- ====================================================== failures

/-- Why an operation on a path failed. -/
inductive FileError where
  | notFound
  | permissionDenied
  | alreadyExists
  | notADirectory
  | isADirectory
  | nameTooLong
  | notText
  | zeroInPath
  | noDirectory
  | other (text : String)
  deriving DecidableEq, Repr

def FileError.text : FileError → String
  | .notFound => "No such file or directory (os error 2)"
  | .permissionDenied => "Permission denied (os error 13)"
  | .alreadyExists => "File exists (os error 17)"
  | .notADirectory => "Not a directory (os error 20)"
  | .isADirectory => "Is a directory (os error 21)"
  | .nameTooLong => "File name too long (os error 36)"
  | .notText => "stream did not contain valid UTF-8"
  | .zeroInPath => "file name contained an unexpected NUL byte"
  | .noDirectory => "failed to create whole tree"
  | .other text => text

-- ====================================================== the disk

/-- What stands at a place on the disk. Times are microseconds since the epoch. -/
inductive DiskEntry where
  | directory
  | file (contents : Bytes) (modified : Int)
  deriving DecidableEq, Repr

/-- The names from the root of the disk to a place on it. -/
abbrev Location := List String

/-- A disk, with the directory that relative paths start from and the time of the next change. -/
structure FileSystem where
  entry : Location → Option DiskEntry
  workingDirectory : Location
  clock : Int

namespace FileSystem

/-- A disk that holds the root directory alone. -/
def empty : FileSystem where
  entry at_ := if at_ = [] then some .directory else none
  workingDirectory := []
  clock := 0

instance : Inhabited FileSystem := ⟨empty⟩

/-- The disk with `e` at a place. -/
def set (fs : FileSystem) (place : Location) (e : DiskEntry) : FileSystem :=
  { fs with entry := fun l => if l = place then some e else fs.entry l }

/-- The disk with nothing at a place or below it. -/
def clear (fs : FileSystem) (place : Location) : FileSystem :=
  { fs with entry := fun l => if place.isPrefixOf l then none else fs.entry l }

-- ====================================================== looking up

/-- The longest name of a file, in bytes. -/
def nameLimit : Nat := 255

/-- The length of a path's text, in bytes, from which on it is refused. -/
def pathLimit : Nat := 4096

/-- The path's bytes are acceptable; its places have not been looked at. -/
def acceptable (p : FilePath) : Except FileError Unit :=
  let bytes := Utf8.encode p.text
  if bytes.contains 0 then .error .zeroInPath
  else if p.text = "" then .error .notFound
  else if pathLimit ≤ bytes.length then .error .nameTooLong
  else .ok ()

/-- The place named `segment` in the directory `here`. -/
def step (fs : FileSystem) (here : Location) (segment : String) : Except FileError Location :=
  match fs.entry here with
  | none => .error .notFound
  | some (.file ..) => .error .notADirectory
  | some .directory =>
    if segment = "" ∨ segment = "." then .ok here
    else if segment = ".." then .ok here.dropLast
    else if nameLimit < (Utf8.encode segment).length then .error .nameTooLong
    else .ok (here ++ [segment])

/-- The place that the segments lead to from `here`, each on the way being there. -/
def walk (fs : FileSystem) (here : Location) : List String → Except FileError Location
  | [] => if (fs.entry here).isSome then .ok here else .error .notFound
  | segment :: rest =>
    match fs.step here segment with
    | .ok next =>
      if (fs.entry next).isSome then walk fs next rest else .error .notFound
    | .error e => .error e

/-- Where a path starts and the segments from there. -/
def route (fs : FileSystem) (p : FilePath) : Location × List String :=
  if p.isAbsolute then ([], p.segments.tail) else (fs.workingDirectory, p.segments)

/-- The place of a path, and what is there. -/
def lookUp (fs : FileSystem) (p : FilePath) : Except FileError (Location × DiskEntry) := do
  acceptable p
  let (start, segments) := fs.route p
  let place ← fs.walk start segments
  match fs.entry place with
  | some e => .ok (place, e)
  | none => .error .notFound

/-- True if something is at the path. -/
def holds (fs : FileSystem) (p : FilePath) : Bool := (fs.lookUp p).toBool

/-- True if a directory is at the path. -/
def isDirectory (fs : FileSystem) (p : FilePath) : Bool :=
  match fs.lookUp p with
  | .ok (_, .directory) => true
  | _ => false

-- ====================================================== reading

/-- The time of the last change at a path. -/
def modified (fs : FileSystem) (p : FilePath) : Except FileError Int := do
  match ← fs.lookUp p with
  | (_, .file _ time) => .ok time
  | (_, .directory) => .ok fs.clock

/-- The bytes of the file at a path. -/
def read (fs : FileSystem) (p : FilePath) : Except FileError Bytes := do
  match ← fs.lookUp p with
  | (_, .file bytes _) => .ok bytes
  | (_, .directory) => .error .isADirectory

/-- The text of the file at a path. -/
def readText (fs : FileSystem) (p : FilePath) : Except FileError String := do
  match Utf8.decode? (← fs.read p) with
  | some text => .ok text
  | none => .error .notText

-- ====================================================== writing

/-- Where a path that is to be made would be: a name in an existing directory, with or without a
slash after it, or an existing directory itself. -/
inductive Target where
  | name (place : Location) (slash : Bool)
  | standing
  deriving DecidableEq, Repr

/-- Where a path would be made. All but its last segment have to be there. -/
def target (fs : FileSystem) (p : FilePath) : Except FileError Target := do
  acceptable p
  let (start, segments) := fs.route p
  let slash := segments.getLast? = some ""
  match (segments.reverse.dropWhile (· = "")).reverse with
  | [] => .ok .standing
  | named =>
    let directory ← fs.walk start named.dropLast
    let last := named.getLast?.getD ""
    let place ← fs.step directory last
    if last = "." ∨ last = ".." then .ok .standing else .ok (.name place slash)

def makeDirectory (fs : FileSystem) (p : FilePath) : Except FileError FileSystem := do
  match ← fs.target p with
  | .standing => .error .alreadyExists
  | .name place _ =>
    if (fs.entry place).isSome then .error .alreadyExists else .ok (fs.set place .directory)

/-- Makes a file, or writes over one. -/
def write (fs : FileSystem) (p : FilePath) (contents : Bytes) : Except FileError FileSystem := do
  match ← fs.target p with
  | .standing => .error .isADirectory
  | .name place slash =>
    if slash then .error .isADirectory
    else
      match fs.entry place with
      | some .directory => .error .isADirectory
      | _ => .ok (fs.set place (.file contents fs.clock))

/-- A path, its parent, the parent of that and so on; each is shorter than the one before. -/
def ancestors : Nat → FilePath → List FilePath
  | 0, _ => []
  | limit + 1, p =>
    p :: match p.parent? with
      | some parent => ancestors limit parent
      | none => []

/-- Makes the first of the directories; `above` it are its parents, made first if they are
missing. What was made stays made when a later step fails. -/
def makeChain (fs : FileSystem) : List FilePath → Except FileError Unit × FileSystem
  | [] => (.error .noDirectory, fs)
  | p :: above =>
    if p.text = "" then (.ok (), fs)
    else
      match fs.makeDirectory p with
      | .ok made => (.ok (), made)
      | .error .notFound =>
        match makeChain fs above with
        | (.error e, fs) => (.error e, fs)
        | (.ok (), fs) =>
          match fs.makeDirectory p with
          | .ok made => (.ok (), made)
          | .error e => (if fs.isDirectory p then .ok () else .error e, fs)
      | .error e => (if fs.isDirectory p then .ok () else .error e, fs)

/-- Makes a directory and all that it lies in, as far as they are missing. -/
def makeDirectories (fs : FileSystem) (p : FilePath) : Except FileError Unit × FileSystem :=
  fs.makeChain (ancestors (p.text.length + 1) p)

-- ====================================================== edits from outside

/-- Puts a file at a path, changed at the given time, with all directories on the way. -/
def put (fs : FileSystem) (p : FilePath) (contents : Bytes) (time : Int) : FileSystem :=
  let fs := match p.parent? with
    | some parent => (fs.makeDirectories parent).2
    | none => fs
  match fs.target p with
  | .ok (.name place _) => fs.set place (.file contents time)
  | _ => fs

/-- Sets the time of the last change of the file at a path. -/
def touch (fs : FileSystem) (p : FilePath) (time : Int) : FileSystem :=
  match fs.lookUp p with
  | .ok (place, .file contents _) => fs.set place (.file contents time)
  | _ => fs

/-- Takes away what is at a path. -/
def remove (fs : FileSystem) (p : FilePath) : FileSystem :=
  match fs.lookUp p with
  | .ok (place, _) => fs.clear place
  | .error _ => fs

/-- A change made to the disk from outside. -/
inductive Edit where
  | put (path : FilePath) (contents : Bytes) (time : Int)
  | makeDirectories (path : FilePath)
  | touch (path : FilePath) (time : Int)
  | remove (path : FilePath)
  deriving DecidableEq, Repr

/-- The disk after a change from outside. -/
def edit (fs : FileSystem) : Edit → FileSystem
  | .put path contents time => fs.put path contents time
  | .makeDirectories path => (fs.makeDirectories path).2
  | .touch path time => fs.touch path time
  | .remove path => fs.remove path

end FileSystem

end TransformCache
