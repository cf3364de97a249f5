/-
Paths seen from a directory, by their components alone.

`relative?` drops every `.`, takes away what the two paths have in common, and goes up once for
each component left of the base; nothing is looked up. Two paths can be related when both are
absolute or neither is. `absolute` goes the other way: a path from the working directory, with
its `.` and repeated slashes gone and its steps upwards kept.
-/
import TransformCache.FilePath.Basic

namespace TransformCache.FilePath

/-- Components without the current directory. -/
def moves (p : FilePath) : List Component := p.components.filter (· ≠ .current)

/-- Both lists after what they have in common at the front. -/
def dropCommon : List Component → List Component → List Component × List Component
  | a :: as, b :: bs => if a = b then dropCommon as bs else (a :: as, b :: bs)
  | as, bs => (as, bs)

/-- The components of the way from `base` to `p`: steps upwards, then what is left of `p`. Two
absolute paths have the root in common, so neither part holds it. -/
def way? (base p : FilePath) : Option (List Component) :=
  if base.isAbsolute ≠ p.isAbsolute then none
  else
    let (up, down) := dropCommon base.moves p.moves
    some (up.map (fun _ => .up) ++ down)

/-- The path with the given components, none of which is the root. -/
def ofComponents (components : List Component) : FilePath :=
  ⟨"/".intercalate (components.map (·.text))⟩

/-- The way from `base` to `p` as a path. -/
def relative? (base p : FilePath) : Option FilePath := (way? base p).map ofComponents

/-- `p` from the working directory `cwd`. A slash at the end is kept, and so are two slashes, but
not more, at the front. An empty path is none. -/
def absolute? (cwd p : FilePath) : Option FilePath :=
  let chars := p.text.toList
  if chars = [] then none
  else
    let parts := match p.components with
      | .current :: rest => rest
      | parts => parts
    let start : FilePath × List Component :=
      if p.isAbsolute then
        if chars.take 2 = ['/', '/'] ∧ chars.take 3 ≠ ['/', '/', '/'] then (⟨"//"⟩, parts.drop 1)
        else (⟨""⟩, parts)
      else (cwd, parts)
    let whole := start.2.foldl (fun path part => path.join ⟨part.text⟩) start.1
    some (if chars.getLast? = some '/' then whole.join ⟨""⟩ else whole)

end TransformCache.FilePath
