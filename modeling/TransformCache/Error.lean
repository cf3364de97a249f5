/-
What can go wrong between configuring a register and handing a module its code.

Errors are told apart by where they arise: in the configuration, in the engine, with a source
file, in the store, or with the host's loaders. The words for each are in `text`.
-/
import TransformCache.Cache.Store
import TransformCache.Glob.Pattern

namespace TransformCache

/-- Why options cannot be taken. -/
inductive ConfigFault where
  | unreadable (reason : FileError)
  | malformed (reason : Json.Error)
  | badPattern (pattern : String) (reason : Glob.PatternFault)
  | unrelated (path root : FilePath)
  | other (text : String)
  deriving DecidableEq, Repr

/-- The words for a fault in the configuration. -/
def ConfigFault.text : ConfigFault → String
  | .unreadable reason => "Failed to read config: " ++ reason.text
  | .malformed reason => "Invalid config: " ++ reason.text
  | .badPattern pattern reason =>
    "Invalid pattern '" ++ pattern ++ "': error parsing glob '" ++ pattern ++ "': " ++ reason.text
  | .unrelated path root =>
    "Cannot make " ++ path.text ++ " relative to cache source root " ++ root.text
  | .other text => text

/-- Why an engine gave no code. -/
inductive TransformError where
  /-- The engine will not take the source of a file. -/
  | rejected (path : FilePath) (message : String)
  /-- The engine could not run. -/
  | engine (message : String)
  | io (reason : FileError)
  deriving DecidableEq, Repr

/-- The words for a failure of the engine. -/
def TransformError.text : TransformError → String
  | .rejected path message => path.text ++ ": " ++ message
  | .engine message => "Engine error: " ++ message
  | .io reason => "I/O error: " ++ reason.text

/-- What could not be found out about a source file. -/
inductive FileFault where
  | noTime (path : FilePath) (reason : FileError)
  | noContents (path : FilePath) (reason : FileError)
  | other (text : String)
  deriving DecidableEq, Repr

/-- The words for a fault with a source file. -/
def FileFault.text : FileFault → String
  | .noTime path reason => "Failed to stat " ++ path.text ++ ": " ++ reason.text
  | .noContents path reason => "Failed to read " ++ path.text ++ ": " ++ reason.text
  | .other text => text

/-- Why the host loaded no module. -/
inductive LoadFault where
  | noLoader (extension : String) (path : FilePath)
  | other (text : String)
  deriving DecidableEq, Repr

/-- The words for a fault of the host. -/
def LoadFault.text : LoadFault → String
  | .noLoader extension path => "No loader for '" ++ extension ++ "' (" ++ path.text ++ ")"
  | .other text => text

/-- Any failure of a register. -/
inductive Error where
  | config (fault : ConfigFault)
  | transform (reason : TransformError)
  | file (fault : FileFault)
  | cache (reason : Cache.Error)
  | io (reason : FileError)
  | load (fault : LoadFault)
  deriving DecidableEq, Repr

def Error.text : Error → String
  | .config fault => "Configuration error: " ++ fault.text
  | .transform reason => "Transform error: " ++ reason.text
  | .file fault => "File error: " ++ fault.text
  | .cache reason => "Cache error: " ++ reason.text
  | .io reason => "I/O error: " ++ reason.text
  | .load fault => "Load error: " ++ fault.text

end TransformCache
