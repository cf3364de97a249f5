/-
The source maps of compiled files, for whoever resolves stack traces.

Maps are kept by file, and files are told apart by the components of their paths, not by the way
these are written. A file compiled without a map has none from then on.
-/
import TransformCache.FilePath.Basic
import TransformCache.Json.Value

namespace TransformCache

/-- Source maps by file; each file at most once. -/
structure SourceMaps where
  maps : List (List FilePath.Component × Json) := []
  deriving Inhabited

namespace SourceMaps

/-- The map of a file, or nothing in place of the map it had. -/
def register (s : SourceMaps) (path : FilePath) (map : Option Json) : SourceMaps :=
  let others := s.maps.filter (·.1 ≠ path.components)
  ⟨match map with
    | some m => (path.components, m) :: others
    | none => others⟩

def retrieve (s : SourceMaps) (path : FilePath) : Option Json :=
  (s.maps.find? (·.1 = path.components)).map (·.2)

/-- How many files have a map. -/
def size (s : SourceMaps) : Nat := s.maps.length

/-- True if no file has a map. -/
def isEmpty (s : SourceMaps) : Bool := s.maps.isEmpty

end SourceMaps

end TransformCache
