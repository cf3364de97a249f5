/-
Keys of a project that is moved.

Where files are named from a source root, a key holds the project and the way
from the root, and nothing of the root itself. A file that lies at some path
below the root has the same key wherever the root is, and however the root and
the path are written.
-/
import TransformCache.CacheKey
import TransformCache.Proofs.FilePath.Moves

namespace TransformCache.CacheKey

open EngineOptions (canonical withFilename)

variable {p : FilePath}

/-- The name that a file has in a project: the moves of its path below the root.
-/
def nameInProject (project : String) (p : FilePath) : String :=
  project ++ ":" ++ "/".intercalate ((p.components.filter (· ≠ .current)).map (·.text))

theorem relocatableIdentity_join (h : p.isAbsolute = false) (project : String)
    (root : FilePath) :
    relocatableIdentity project root (root.join p) = .ok (nameInProject project p) := by
  unfold relocatableIdentity
  rw [FilePath.relative?_join h]
  simp only
  rw [FilePath.components_ofComponents (FilePath.isMove_of_relative h)]
  rfl

theorem build_join (options : EngineOptions) (h : p.isAbsolute = false) (project : String)
    (root : FilePath) (version : String) (discriminator : Option String) :
    build options (root.join p) (.checksum root project) version discriminator
      = .ok (canonical (withFilename options (nameInProject project p)) ++ ":"
          ++ tail version discriminator) := by
  unfold build effectiveOptions
  simp only
  rw [relocatableIdentity_join h]
  rfl

/-- A file at a relative path below a root has one name and one key, wherever the
root is and however it is written. -/
theorem build_of_moved (options : EngineOptions) (hp : p.isRelative = true)
    (project version : String) (discriminator : Option String) (root root' : FilePath) :
    let keyFrom (root : FilePath) :=
      build options (root.join p) (.checksum root project) version discriminator
    relocatableIdentity project root (root.join p) = .ok (nameInProject project p) ∧
      keyFrom root = .ok (canonical (withFilename options (nameInProject project p)) ++ ":"
        ++ tail version discriminator) ∧
      keyFrom root = keyFrom root' := by
  intro keyFrom
  have h : p.isAbsolute = false := by simpa [FilePath.isRelative] using hp
  refine ⟨relocatableIdentity_join h project root, build_join options h .., ?_⟩
  exact (build_join options h ..).trans (build_join options h ..).symm

/-- The general statement for a path with all that can be idle in one, below a
root that is written with a way back, and below a relative one. -/
theorem build_of_moved_upwards :
    (⟨"./src//../a.js/"⟩ : FilePath).isRelative = true ∧
      relocatableIdentity "app" ⟨"/home//me/.."⟩ ⟨"/home//me/.././src//../a.js/"⟩
        = .ok "app:src/../a.js" ∧
      build ∅ ⟨"/home//me/.././src//../a.js/"⟩ (.checksum ⟨"/home//me/.."⟩ "app") "1" none
        = build ∅ ⟨".././src//../a.js/"⟩ (.checksum ⟨"../"⟩ "app") "1" none := by
  have hrelative : (⟨"./src//../a.js/"⟩ : FilePath).isRelative = true := by decide +kernel
  obtain ⟨hidentity, -, hkeys⟩ :=
    build_of_moved ∅ hrelative "app" "1" none ⟨"/home//me/.."⟩ ⟨"../"⟩
  have hjoin : FilePath.join ⟨"/home//me/.."⟩ ⟨"./src//../a.js/"⟩
      = ⟨"/home//me/.././src//../a.js/"⟩ := by decide +kernel
  have hjoin' : FilePath.join ⟨"../"⟩ ⟨"./src//../a.js/"⟩ = ⟨".././src//../a.js/"⟩ := by
    decide +kernel
  have hname : nameInProject "app" ⟨"./src//../a.js/"⟩ = "app:src/../a.js" := by decide +kernel
  rw [hjoin, hname] at hidentity
  simp only [hjoin, hjoin'] at hkeys
  exact ⟨hrelative, hidentity, hkeys⟩

end TransformCache.CacheKey
