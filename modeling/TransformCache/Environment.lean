/-
Settings from the environment.

A variable that is empty counts as not set. The file of the store is the one that is named, or else
a hidden one in the home directory; the discriminator keeps results apart that were made under
different settings of the program's mode.
-/
import TransformCache.FilePath.Basic

namespace TransformCache

/-- The value of each variable that is set. -/
abbrev Variables := String → Option String

/-- Variables given as pairs, the last one of a repeated name counting. -/
def Variables.ofList (pairs : List (String × String)) : Variables := fun name =>
  (pairs.reverse.find? (·.1 = name)).map (·.2)

/-- What the environment says about the cache. -/
structure Environment where
  /-- The file of the store, if one is named. -/
  cachePath : Option FilePath := none
  disableCache : Bool := false
  /-- Kept as a part of cache keys. -/
  discriminator : Option String := none
  deriving DecidableEq, Repr, Inhabited

namespace Environment

def cachePathVariable : String := "TRANSLOAD_CACHE_PATH"

/-- Turns the cache off, whatever it is set to. -/
def disableCacheVariable : String := "TRANSLOAD_DISABLE_CACHE"

/-- The discriminator. -/
def modeVariable : String := "TRANSLOAD_ENV"

/-- The discriminator where the other variable is not set. -/
def commonModeVariable : String := "NODE_ENV"

/-- The name of the store's file in the home directory. -/
def defaultFile : String := ".transload-register.json"

/-- The value of a variable, if it has one that is not empty. -/
def nonEmpty (vars : Variables) (name : String) : Option String :=
  (vars name).filter (· ≠ "")

def ofVariables (vars : Variables) : Environment where
  cachePath := (nonEmpty vars cachePathVariable).map FilePath.mk
  disableCache := (nonEmpty vars disableCacheVariable).isSome
  discriminator := nonEmpty vars modeVariable <|> nonEmpty vars commonModeVariable

/-- The home directory, or the directory for passing files where there is none. -/
def homeDirectory (vars : Variables) : FilePath :=
  ⟨(nonEmpty vars "HOME").getD ((nonEmpty vars "TMPDIR").getD "/tmp")⟩

def storePath (env : Environment) (home : FilePath) : FilePath :=
  env.cachePath.getD (home.join ⟨defaultFile⟩)

end Environment

end TransformCache
