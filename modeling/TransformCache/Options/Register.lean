/-
The options that a register is configured with.

Six fields are known by name; every other member of the object is an option of the engine. A field
that is `null` is not set. A known field may be given once; of an engine option the last one counts.
The engine's options are kept as they are written, and looked at when the object is at its end.

A relative source root in a file is taken from the directory of that file.
-/
import TransformCache.Error
import TransformCache.Options.Engine

namespace TransformCache

/-- Where messages go: a callback, known by its name. -/
structure Sink where
  name : String
  deriving DecidableEq, Repr

/-- Options of a register. What is not set leaves the configuration as it is. -/
structure Options where
  /-- Patterns of the files to transform, and of no others. -/
  only : Option (List String) := none
  /-- Patterns of files to leave alone. -/
  ignore : Option (List String) := none
  /-- Off turns the cache off for good. -/
  cache : Option Bool := none
  cacheSourceRoot : Option FilePath := none
  projectName : Option String := none
  /-- The extensions to intercept. -/
  extensions : Option (List String) := none
  /-- Receives messages for people. -/
  log : Option Sink := none
  /-- Receives messages on every step. -/
  debug : Option Sink := none
  /-- Options of the engine. -/
  transform : EngineOptions := ∅

namespace Options

-- ====================================================== writing

/-- The options as JSON: the fields that are set, then those of the engine. -/
def toJson (o : Options) : Json :=
  let texts (items : List String) : Json := .array (items.map .string)
  let field (name : String) (value : Option Json) : List (String × Json) :=
    match value with
    | some v => [(name, v)]
    | none => []
  .object <|
    field "only" (o.only.map texts) ++
    field "ignore" (o.ignore.map texts) ++
    field "cache" (o.cache.map .bool) ++
    field "cacheSourceRoot" (o.cacheSourceRoot.map fun p => .string p.text) ++
    field "projectName" (o.projectName.map .string) ++
    field "extensions" (o.extensions.map texts) ++
    o.transform.members

-- ====================================================== reading

/-- The members read so far; a field that was `null` has been seen. -/
structure Reading where
  only : Option (Option (List String)) := none
  ignore : Option (Option (List String)) := none
  cache : Option (Option Bool) := none
  cacheSourceRoot : Option (Option FilePath) := none
  projectName : Option (Option String) := none
  extensions : Option (Option (List String)) := none
  /-- The members of other names, last first. -/
  others : List (String × Json) := []

/-- True for a known field that has been read. -/
def Reading.seen (r : Reading) (key : String) : Bool :=
  if key = "only" then r.only.isSome
  else if key = "ignore" then r.ignore.isSome
  else if key = "cache" then r.cache.isSome
  else if key = "cacheSourceRoot" then r.cacheSourceRoot.isSome
  else if key = "projectName" then r.projectName.isSome
  else if key = "extensions" then r.extensions.isSome
  else false

def texts (depth : Nat) : Json.Reader (List String) :=
  Json.listOf depth (Json.stringOf "a string")

def pathText : Json.Reader FilePath := fun rest =>
  Json.mapValue FilePath.mk (Json.stringOf "path string" rest)

/-- How the members of options are read; `depth` more containers may be open in each. -/
def memberRule (depth : Nat) : Json.MemberRule Reading where
  refuse r key := if r.seen key then some (.duplicateField key) else none
  member r key rest :=
    if key = "only" then
      Json.mapValue (fun v => { r with only := some v }) (Json.optional (texts depth) rest)
    else if key = "ignore" then
      Json.mapValue (fun v => { r with ignore := some v }) (Json.optional (texts depth) rest)
    else if key = "cache" then
      Json.mapValue (fun v => { r with cache := some v }) (Json.optional Json.boolean rest)
    else if key = "cacheSourceRoot" then
      Json.mapValue (fun v => { r with cacheSourceRoot := some v }) (Json.optional pathText rest)
    else if key = "projectName" then
      Json.mapValue (fun v => { r with projectName := some v })
        (Json.optional (Json.stringOf "a string") rest)
    else if key = "extensions" then
      Json.mapValue (fun v => { r with extensions := some v }) (Json.optional (texts depth) rest)
    else
      Json.mapValue (fun v => { r with others := (key, v) :: r.others }) (Json.tree depth rest)

/-- The options that the members make, with those of the engine. -/
def Reading.options (r : Reading) (transform : EngineOptions) : Options where
  only := r.only.getD none
  ignore := r.ignore.getD none
  cache := r.cache.getD none
  cacheSourceRoot := r.cacheSourceRoot.getD none
  projectName := r.projectName.getD none
  extensions := r.extensions.getD none
  transform := transform

def Reading.finish (r : Reading) : Except Json.Fault Options :=
  (fun ms => r.options (Keyed.ofList ms)) <$> Json.settleMembers r.others.reverse

/-- The options that a text writes, or the first fault in it. -/
def read (text : String) : Except Json.Error Options :=
  Json.document
    (Json.objectOf "struct RegisterOptions" Json.depthLimit
      (memberRule (Json.depthLimit - 1)) {} Reading.finish)
    (Utf8.encode text)

def parse (text : String) : Except Error Options :=
  match read text with
  | .ok o => .ok o
  | .error reason => .error (.config (.malformed reason))

/-- A relative source root, taken from the directory that the options' file is in. -/
def seenFrom (o : Options) (file : FilePath) : Options :=
  match o.cacheSourceRoot, file.parent? with
  | some root, some directory =>
    if root.isRelative then { o with cacheSourceRoot := some (directory.join root) } else o
  | _, _ => o

def ofFile (fs : FileSystem) (file : FilePath) : Except Error Options :=
  match fs.readText file with
  | .error reason => .error (.config (.unreadable reason))
  | .ok text =>
    match parse text with
    | .ok o => .ok (o.seenFrom file)
    | .error e => .error e

end Options

end TransformCache
