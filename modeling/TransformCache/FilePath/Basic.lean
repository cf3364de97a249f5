/-
File paths: texts with slashes, and the components they name.

A path is its text, since that is what it is shown as. What it *names* is a list of components:
the root, the current directory (only where a relative path begins with it), steps upwards, and
names. Repeated slashes, a slash at the end and every other `.` name nothing, so two paths with
different texts can have the same components; looking up by path goes by these.

The text is cut into segments at the slashes. A segment is *significant* when it names a
component; parents, remainders and file names are found by dropping insignificant segments from
the ends, and keep the inner text as it was written.
-/

namespace TransformCache

/-- A file path, as it is written. -/
structure FilePath where
  text : String
  deriving DecidableEq, Repr, Inhabited

namespace FilePath

-- ====================================================== components

/-- What a part of a path names. -/
inductive Component where
  | root
  | current
  | up
  | name (text : String)
  deriving DecidableEq, Repr

/-- How a component is written. -/
def Component.text : Component → String
  | .root => "/"
  | .current => "."
  | .up => ".."
  | .name n => n

/-- A text cut at its slashes: one segment more than slashes. -/
def splitSlash : List Char → List (List Char)
  | [] => [[]]
  | c :: rest =>
    if c = '/' then [] :: splitSlash rest
    else
      match splitSlash rest with
      | [] => [[c]]
      | segment :: more => (c :: segment) :: more

/-- The text between the slashes. -/
def segments (p : FilePath) : List String := (splitSlash p.text.toList).map String.ofList

/-- True for a path that starts at the root. -/
def isAbsolute (p : FilePath) : Bool := p.text.toList.head? = some '/'

/-- True for a path that starts at a directory of its reader's. -/
def isRelative (p : FilePath) : Bool := !p.isAbsolute

/-- A segment of a path and whether it names anything. -/
structure Segment where
  text : String
  significant : Bool
  deriving DecidableEq, Repr

/-- A segment that does not begin a relative path. -/
def Segment.inner (text : String) : Segment := ⟨text, text ≠ "" && text ≠ "."⟩

/-- The segments after the root of an absolute path, or all of a relative one. -/
def body (p : FilePath) : List Segment :=
  match p.isAbsolute, p.segments with
  | true, _ :: rest => rest.map .inner
  | false, first :: rest => ⟨first, first ≠ ""⟩ :: rest.map .inner
  | _, [] => []

/-- What a significant segment names. -/
def Segment.component (s : Segment) : Component :=
  if s.text = "." then .current else if s.text = ".." then .up else .name s.text

/-- What a path names, in order. -/
def components (p : FilePath) : List Component :=
  let named := (p.body.filter (·.significant)).map (·.component)
  if p.isAbsolute then .root :: named else named

-- ====================================================== building

def ofSegments (absolute : Bool) (body : List Segment) : FilePath :=
  let text := "/".intercalate (body.map (·.text))
  ⟨if absolute then "/" ++ text else text⟩

/-- The path of `child` seen from `p`: `child` itself if it is absolute. -/
def join (p child : FilePath) : FilePath :=
  if child.isAbsolute then child
  else if p.text = "" ∨ p.text.toList.getLast? = some '/' then ⟨p.text ++ child.text⟩
  else ⟨p.text ++ "/" ++ child.text⟩

-- ====================================================== parts

/-- The path without insignificant segments at its end. -/
def dropIdle (body : List Segment) : List Segment :=
  (body.reverse.dropWhile fun s => !s.significant).reverse

/-- The path up to its last component; nothing for the root and for an empty path. -/
def parent? (p : FilePath) : Option FilePath :=
  match dropIdle p.body with
  | [] => none
  | body => some (ofSegments p.isAbsolute (dropIdle body.dropLast))

/-- The name that a path ends in, if it ends in one. -/
def fileName? (p : FilePath) : Option String :=
  match (dropIdle p.body).getLast? with
  | none => none
  | some s =>
    match s.component with
    | .name n => some n
    | _ => none

/-- The text after the last point of a name; a name without a point, or with none but the first
character, has none. -/
def extensionOf (name : String) : Option String :=
  let chars := name.toList
  let after := chars.reverse.takeWhile (· ≠ '.')
  if after.length + 1 < chars.length then some (String.ofList after.reverse) else none

/-- The text after the last point of the name that a path ends in. -/
def extension? (p : FilePath) : Option String := p.fileName?.bind extensionOf

/-- The segments after the first `n` significant ones. -/
def afterSignificant : Nat → List Segment → List Segment
  | 0, body => body
  | _ + 1, [] => []
  | n + 1, s :: rest => afterSignificant (if s.significant then n else n + 1) rest

/-- What follows `base` in `p`, if `p` begins with all of `base`'s components. -/
def remainder? (base p : FilePath) : Option FilePath :=
  let wanted := base.components
  if wanted.isPrefixOf p.components then
    if wanted = [] then some (ofSegments p.isAbsolute (dropIdle p.body))
    else
      let names := wanted.length - if p.isAbsolute then 1 else 0
      let rest := (afterSignificant names p.body).dropWhile fun s => !s.significant
      some (ofSegments false (dropIdle rest))
  else none

end FilePath

end TransformCache
