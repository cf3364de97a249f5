/-
The options that an engine is given.

They are free-form: a mapping from names to JSON values, which this library hands on unread. Only
`filename` is set here, for each file anew. The mapping is sorted, so its text says exactly what
the options are, in whichever order they were set.
-/
import TransformCache.FilePath.Basic
import TransformCache.Json.Parser

namespace TransformCache

/-- Options of an engine, by name. -/
abbrev EngineOptions := Keyed Json

namespace EngineOptions

/-- The options with those of `other` written over them. -/
def merged (o other : EngineOptions) : EngineOptions := Keyed.overlay o other

/-- The name of the option that carries the file. -/
def filenameKey : String := "filename"

def withFilename (o : EngineOptions) (filename : String) : EngineOptions :=
  o.insert filenameKey (.string filename)

def toJson (o : EngineOptions) : Json := .object o.members

/-- The text that stands for the options. -/
def canonical (o : EngineOptions) : String := o.toJson.compact

/-- How the members of an object become options: a repeated name takes its last value. -/
def memberRule (depth : Nat) : Json.MemberRule EngineOptions where
  member o key rest := Json.mapValue (fun value => o.insert key value) (Json.value depth rest)

def parse (text : String) : Except Json.Error EngineOptions :=
  Json.document (Json.objectOf "a map" Json.depthLimit (memberRule (Json.depthLimit - 1)) ∅ .ok)
    (Utf8.encode text)

end EngineOptions

end TransformCache
