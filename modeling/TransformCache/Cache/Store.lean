/-
The store of entries and its file.

A store keeps its entries in memory. They reach the file only by a flush, which writes all of
them, and are read back only by a load, which takes all of the file or nothing. A disabled store
answers no look-up, takes no entry and writes nothing.

A flush is asked for after every change, but one flush a turn is enough: `requestFlush` answers
whether one has to be deferred, and notes that one is pending until `beginFlush`, right before it
runs. What is written is what the store holds then.
-/
import TransformCache.Cache.Entry
import TransformCache.FileSystem

namespace TransformCache.Cache

-- ====================================================== failures

/-- Why a store could not be loaded or flushed. -/
inductive Error where
  | unreadable (path : FilePath) (reason : FileError)
  | unwritable (path : FilePath) (reason : FileError)
  | corrupted (reason : String)
  | unserializable (reason : String)
  | tooLarge (size limit : Nat)
  deriving DecidableEq, Repr

def Error.text : Error → String
  | .unreadable path reason => "Failed to read cache store " ++ path.text ++ ": " ++ reason.text
  | .unwritable path reason => "Failed to write cache store " ++ path.text ++ ": " ++ reason.text
  | .corrupted reason => "Corrupted cache store: " ++ reason
  | .unserializable reason => "Serialization error: " ++ reason
  | .tooLarge size limit =>
    "Cache too large to save (" ++ toString size ++ " bytes, limit " ++ toString limit ++
      "); skipping this save"

-- ====================================================== the store

/-- The largest file that a store writes, in bytes. -/
def defaultSizeLimit : Nat := 512 * 1024 * 1024

/-- A store of entries. -/
structure Store where
  /-- The file that the entries are kept in. -/
  path : FilePath
  entries : Keyed Entry := ∅
  enabled : Bool := true
  /-- A flush was deferred and has not begun. -/
  flushPending : Bool := false
  sizeLimit : Nat := defaultSizeLimit

instance : Inhabited Store := ⟨{ path := ⟨""⟩ }⟩

namespace Store

/-- An empty store; its file is not looked at. -/
def new (path : FilePath) : Store := { path }

/-- Turns the store off, for good. -/
def disable (s : Store) : Store := { s with enabled := false }

/-- A store that is off from the start. -/
def disabled (path : FilePath) : Store := (new path).disable

def lookUp (s : Store) (key : String) : Option Entry :=
  if s.enabled then s.entries.get? key else none

def put (s : Store) (key : String) (entry : Entry) : Store :=
  if s.enabled then { s with entries := s.entries.insert key entry } else s

/-- Drops all entries from memory. -/
def clear (s : Store) : Store := { s with entries := ∅ }

/-- How many entries are in memory. -/
def size (s : Store) : Nat := s.entries.size

-- ====================================================== the file

/-- Takes the entries of the file in place of those in memory, and answers their number. A file
that is not there changes nothing. -/
def load (s : Store) (fs : FileSystem) : Except Error (Nat × Store) :=
  if fs.holds s.path then
    match fs.read s.path with
    | .error reason => .error (.unreadable s.path reason)
    | .ok file =>
      match parseEntries file with
      | .error e => .error (.corrupted e.text)
      | .ok entries => .ok (entries.size, { s with entries })
  else .ok (0, s)

/-- The store of a file; empty if the file cannot be loaded. -/
def openAt (path : FilePath) (fs : FileSystem) : Store :=
  match (new path).load fs with
  | .ok (_, s) => s
  | .error _ => new path

/-- Writes the entries to the file, making the directories that it lies in. -/
def flush (s : Store) (fs : FileSystem) : Except Error Unit × FileSystem :=
  if s.enabled then
    let file := entriesFile s.entries
    if s.sizeLimit < file.length then (.error (.tooLarge file.length s.sizeLimit), fs)
    else
      let made : Except FileError Unit × FileSystem :=
        match s.path.parent? with
        | some parent => if parent.text = "" then (.ok (), fs) else fs.makeDirectories parent
        | none => (.ok (), fs)
      match made with
      | (.error reason, fs) => (.error (.unwritable s.path reason), fs)
      | (.ok (), fs) =>
        match fs.write s.path file with
        | .ok written => (.ok (), written)
        | .error reason => (.error (.unwritable s.path reason), fs)
  else (.ok (), fs)

-- ====================================================== deferring flushes

/-- Asks for a flush: the store after it, and whether a flush has to be deferred. -/
def requestFlush (s : Store) : Store × Bool :=
  if s.enabled && !s.flushPending then ({ s with flushPending := true }, true) else (s, false)

def beginFlush (s : Store) : Store := { s with flushPending := false }

/-- A store as it is shown to people who look for faults. -/
def describe (s : Store) : String :=
  "CacheStore \x7b path: " ++ Text.quoted s.path.text ++
    ", enabled: " ++ (if s.enabled then "true" else "false") ++
    ", entries: " ++ toString s.size ++ " \x7d"

end Store

end TransformCache.Cache
