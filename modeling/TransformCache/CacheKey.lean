/-
The key that a result is stored under.

A key says under which options, by which version of the engine and in which environment a result
was made: the canonical text of the options, then the version, then the discriminator if there is
one, with colons between. In `mtime` mode the options name the file by its path. In `checksum` mode
they name it by the project and the way from the source root, so that the key does not depend on
where the project lies.
-/
import TransformCache.FilePath.Relative
import TransformCache.Invalidation
import TransformCache.Options.Engine

namespace TransformCache

/-- A file named from a source root: the project, a colon, and the way from the root. -/
def relocatableIdentity (project : String) (root path : FilePath) : Except Error String :=
  match FilePath.relative? root path with
  | none => .error (.config (.unrelated path root))
  | some way => .ok (project ++ ":" ++ "/".intercalate (way.components.map (·.text)))

namespace CacheKey

/-- The part of a key after the options: the engine's version and the discriminator. -/
def tail (version : String) (discriminator : Option String) : String :=
  match discriminator with
  | none => version
  | some mode => version ++ ":" ++ mode

/-- The options that a key is made of. -/
def effectiveOptions (options : EngineOptions) (path : FilePath) (mode : Mode) :
    Except Error EngineOptions :=
  match mode with
  | .mtime => .ok options
  | .checksum root project =>
    (fun identity => EngineOptions.withFilename options identity) <$>
      relocatableIdentity project root path

def build (options : EngineOptions) (path : FilePath) (mode : Mode) (version : String)
    (discriminator : Option String) : Except Error String :=
  (fun effective => EngineOptions.canonical effective ++ ":" ++ tail version discriminator) <$>
    effectiveOptions options path mode

end CacheKey

end TransformCache
