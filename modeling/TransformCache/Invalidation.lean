/-
When a stored result still holds.

In `mtime` mode a result holds while the time of the file's last change stays the same. In
`checksum` mode it holds while the checksum of its text does, which also survives a move of the
project to another directory: the mode carries the root that files are named from and the name of
the project.
-/
import TransformCache.Cache.Store
import TransformCache.Digest.Blake3
import TransformCache.Error

namespace TransformCache

/-- How results are judged. -/
inductive Mode where
  | mtime
  | checksum (sourceRoot : FilePath) (projectName : String)
  deriving DecidableEq, Repr, Inhabited

/-- What the store has for a file. -/
inductive Verdict where
  | hit (entry : Cache.Entry)
  | absent
  /-- There is an entry, but the file has changed. -/
  | stale

def checksumDigits : Nat := 32

/-- The checksum of a text: the first half of its digest. -/
def checksumText (text : String) : String :=
  String.ofList ((Blake3.hex (Blake3.digest (Utf8.encode text))).toList.take checksumDigits)

/-- The checksum of a file's text. Bytes that are no text are replaced, not refused. -/
def fileChecksum (fs : FileSystem) (path : FilePath) : Except Error String :=
  match fs.read path with
  | .ok bytes => .ok (checksumText (Utf8.decodeLossy bytes))
  | .error reason => .error (.file (.noContents path reason))

/-- How many times there are: they have 64 bits, and wrap around. -/
def timeRange : Nat := 0x10000000000000000

/-- The time of a file's last change in milliseconds, the rest cut off towards the epoch. -/
def fileTime (fs : FileSystem) (path : FilePath) : Except Error Int :=
  match fs.modified path with
  | .ok microseconds => .ok ((microseconds.tdiv 1000).bmod timeRange)
  | .error reason => .error (.file (.noTime path reason))

namespace Mode

/-- True if results survive a move of the project. -/
def isRelocatable : Mode → Bool
  | .mtime => false
  | .checksum .. => true

def projectName? : Mode → Option String
  | .mtime => none
  | .checksum _ name => some name

/-- The mode in messages. -/
def name : Mode → String
  | .mtime => "mtime"
  | .checksum .. => "checksum"

/-- The stamp that a file shows now. -/
def currentStamp (m : Mode) (fs : FileSystem) (path : FilePath) : Except Error Cache.Stamp :=
  match m with
  | .mtime => .mtime <$> fileTime fs path
  | .checksum .. => .checksum <$> fileChecksum fs path

end Mode

/-- Judges what the store has against the stamp that the file shows now. -/
def Verdict.of (candidate : Option Cache.Entry) (current : Cache.Stamp) : Verdict :=
  match candidate with
  | none => .absent
  | some entry => if entry.holds current then .hit entry else .stale

end TransformCache
