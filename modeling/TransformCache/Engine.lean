/-
The engine that turns source into code, and how it is called.

An engine is a value: its version, the extensions it is meant for, and two functions. `resolve` may
add options for a file; `transform` makes code of a source text under a request. Both depend on
nothing else, so the same source and request give the same result.

`invoke` calls the engine for a file, on the text given in its place or on the file itself. It
answers with an account of the call, which says what the engine was given, if it came to that.
-/
import TransformCache.Error
import TransformCache.Options.Engine

namespace TransformCache

-- ====================================================== requests

/-- The source maps that are asked for. -/
inductive SourceMapMode where
  | none
  | inline
  | separate
  | both
  deriving DecidableEq, Repr, Inhabited

/-- How a choice of source maps is written. -/
def SourceMapMode.text : SourceMapMode → String
  | .none => "none"
  | .inline => "inline"
  | .separate => "separate"
  | .both => "both"

/-- One call of the engine. -/
structure TransformRequest where
  filename : FilePath
  /-- The resolved options, with the file's name among them. -/
  options : EngineOptions
  /-- The engine may look for configuration files near the file. -/
  configDiscovery : Bool := false
  sourceMaps : SourceMapMode := .both
  /-- The engine should keep its syntax tree. -/
  retainAst : Bool := false
  deriving Inhabited

def TransformRequest.toJson (r : TransformRequest) : Json :=
  .object
    [("filename", .string r.filename.text), ("options", EngineOptions.toJson r.options),
      ("configDiscovery", .bool r.configDiscovery),
      ("sourceMaps", .string r.sourceMaps.text), ("retainAst", .bool r.retainAst)]

/-- What an engine makes of a source. -/
structure Output where
  code : String
  map : Option Json
  deriving Inhabited

-- ====================================================== engines

/-- The extensions of an engine that names none. -/
def defaultExtensions : List String := [".js", ".jsx", ".es6", ".es", ".mjs"]

/-- An engine. -/
structure Engine where
  /-- Kept as a part of cache keys. -/
  version : String
  /-- The extensions that are intercepted at first. -/
  extensions : List String := defaultExtensions
  /-- The options for a file, made of those with its name. -/
  resolve : EngineOptions → FilePath → Except TransformError EngineOptions :=
    fun options _ => .ok options
  /-- The code for a source. -/
  transform : String → TransformRequest → Except TransformError Output

/-- An account of a call of the engine. -/
structure Invocation where
  request : TransformRequest
  /-- The text given in place of the file, if one was. -/
  inline : Option String
  /-- The text that the engine was given; nothing if the file had none. -/
  source : Option String

namespace Engine

def optionsFor (e : Engine) (base : EngineOptions) (path : FilePath) :
    Except TransformError EngineOptions :=
  e.resolve (EngineOptions.withFilename base path.text) path

/-- The text that the engine is given: the one in place of the file, or the file's own. -/
def sourceText (fs : FileSystem) (path : FilePath) (inline : Option String) :
    Except TransformError String :=
  match inline with
  | some text => .ok text
  | none =>
    match fs.readText path with
    | .ok text => .ok text
    | .error reason => .error (.io reason)

def invoke (e : Engine) (fs : FileSystem) (options : EngineOptions) (path : FilePath)
    (inline : Option String) : Except TransformError Output × Invocation :=
  let request : TransformRequest := { filename := path, options }
  match sourceText fs path inline with
  | .error reason => (.error reason, ⟨request, inline, none⟩)
  | .ok source => (e.transform source request, ⟨request, inline, some source⟩)

end Engine

end TransformCache
