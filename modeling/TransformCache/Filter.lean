/-
Which files are transformed, and which are loaded as they are.

Without patterns, files of vendored packages are left alone: those with a segment `node_modules`
on the way from the working directory. As soon as there is a list of patterns, only the lists
count: a file that one of the `ignore` patterns matches is left alone, and with an `only` list so
is every file that none of its patterns matches. A pattern may be written for the path as it is
given or for the part of it below the working directory.
-/
import TransformCache.Error
import TransformCache.FilePath.Relative
import TransformCache.Glob.Match

namespace TransformCache

/-- Decides which files are left alone. -/
structure Filter where
  workingDirectory : FilePath
  only : Option (List Glob.Pattern) := none
  ignore : Option (List Glob.Pattern) := none
  deriving Inhabited

namespace Filter

/-- The directory of vendored packages. -/
def vendorDirectory : String := "node_modules"

/-- The patterns that the texts write, or the fault of the first that writes none. There is no bound
on what they come to together. -/
def patterns : List String → Except Error (List Glob.Pattern)
  | [] => .ok []
  | text :: rest =>
    match Glob.Pattern.parse text with
    | .error reason => .error (.config (.badPattern text reason))
    | .ok p => (p :: ·) <$> patterns rest

/-- A list of patterns, if one is given, in place of the one there was. -/
def replace (current : Option (List Glob.Pattern)) :
    Option (List String) → Except Error (Option (List Glob.Pattern))
  | none => .ok current
  | some texts => some <$> patterns texts

/-- The filter with the lists that are given in place of its own. -/
def withPatterns (f : Filter) (only ignore : Option (List String)) : Except Error Filter :=
  match replace f.only only with
  | .error e => .error e
  | .ok only =>
    match replace f.ignore ignore with
    | .error e => .error e
    | .ok ignore => .ok { f with only, ignore }

/-- The texts of the patterns in a list. -/
def texts (list : Option (List Glob.Pattern)) : Option (List String) :=
  list.map fun patterns => patterns.map (·.text)

/-- True if one of the patterns matches the path, or the part of it below the working directory. -/
def hits (f : Filter) (patterns : List Glob.Pattern) (path : FilePath) : Bool :=
  Glob.anyMatch patterns path ||
    match FilePath.remainder? f.workingDirectory path with
    | some below => Glob.anyMatch patterns below
    | none => false

/-- True for a file of a vendored package. A path that cannot be seen from the working directory
counts with all its segments. -/
def isVendored (f : Filter) (path : FilePath) : Bool :=
  let way := (FilePath.relative? f.workingDirectory path).getD path
  way.components.contains (.name vendorDirectory)

/-- True for a file that is loaded as it is. -/
def ignores (f : Filter) (path : FilePath) : Bool :=
  match f.only, f.ignore with
  | none, none => f.isVendored path
  | only, ignore =>
    (ignore.any fun list => f.hits list path) || (only.any fun list => !f.hits list path)

/-- True for a file that is transformed. -/
def accepts (f : Filter) (path : FilePath) : Bool := !f.ignores path

end Filter

end TransformCache
