/-
The name that a file has in a project.

A file is named by the way to it from the source root. The way can be read off
the name (`way?_of_identity`), so files of one name are reached by one way, and
that leads to one place where it leads from the root to the file at all
(`resolved_of_identity`). It does so if the root has no steps upwards in it.

A root that is written with a detour has another way to each file than the same
root without it, and other names for all of them. What a root is written with
besides, `.` and repeated slashes, does not matter.
-/
import TransformCache.CacheKey
import TransformCache.Options.Register
import TransformCache.Proofs.FilePath.Resolution
import TransformCache.Proofs.Result

namespace TransformCache.CacheKey

open FilePath (Component)

variable {root root' p q : FilePath} {project identity : String}

-- ============================================================ ways and names

/-- A file's name is the project and the way to the file. -/
theorem relocatableIdentity_of_way? {way : List Component} (h : FilePath.way? root p = some way)
    (project : String) :
    relocatableIdentity project root p
      = .ok (project ++ ":" ++ (FilePath.ofComponents way).text) := by
  unfold relocatableIdentity FilePath.relative?
  rw [h]
  simp only [Option.map_some, FilePath.components_ofComponents (FilePath.isMove_of_way? h)]
  rfl

theorem exists_way_of_identity (h : relocatableIdentity project root p = .ok identity) :
    ∃ way, FilePath.way? root p = some way := by
  unfold relocatableIdentity FilePath.relative? at h
  cases hway : FilePath.way? root p with
  | some way => exact ⟨way, rfl⟩
  | none =>
      rw [hway] at h
      cases h

/-- A name gives the way away, from whichever root it is. -/
theorem way?_of_identity (h : relocatableIdentity project root p = .ok identity)
    (h' : relocatableIdentity project root' q = .ok identity) :
    FilePath.way? root p = FilePath.way? root' q := by
  obtain ⟨way, hway⟩ := exists_way_of_identity h
  obtain ⟨way', hway'⟩ := exists_way_of_identity h'
  rw [relocatableIdentity_of_way? hway] at h
  rw [relocatableIdentity_of_way? hway'] at h'
  have hchars := congrArg String.toList (Except.ok.inj (h.trans h'.symm))
  simp only [String.toList_append] at hchars
  have hpaths : FilePath.ofComponents way = FilePath.ofComponents way' :=
    congrArg FilePath.mk (String.toList_injective (List.append_cancel_left hchars))
  rw [hway, hway', ← FilePath.components_ofComponents (FilePath.isMove_of_way? hway),
    ← FilePath.components_ofComponents (FilePath.isMove_of_way? hway'), hpaths]

/-- A file that two roots both lead to has one name from them exactly if they lead
to it in one way. -/
theorem relocatableIdentity_eq_iff (h : root.isAbsolute = p.isAbsolute)
    (h' : root'.isAbsolute = p.isAbsolute) (project : String) :
    relocatableIdentity project root p = relocatableIdentity project root' p
      ↔ FilePath.way? root p = FilePath.way? root' p := by
  have hway := FilePath.way?_of_same h
  have hway' := FilePath.way?_of_same h'
  have hname := relocatableIdentity_of_way? hway project
  have hname' := relocatableIdentity_of_way? hway' project
  constructor
  · intro hsame
    exact way?_of_identity hname (hsame ▸ hname)
  · intro hsame
    rw [hway, hway'] at hsame
    rw [hname, hname', Option.some.inj hsame]

/-- Under a root without steps upwards, files of one name are the same without
their detours. -/
theorem resolved_of_identity (hroot : .up ∉ root.components)
    (h : relocatableIdentity project root p = .ok identity)
    (h' : relocatableIdentity project root q = .ok identity) : p.resolved = q.resolved := by
  obtain ⟨way, hway⟩ := exists_way_of_identity h
  have hway' : FilePath.way? root q = some way := (way?_of_identity h h').symm.trans hway
  rw [← FilePath.resolved_join_way hroot hway, FilePath.resolved_join_way hroot hway']

-- ===================================================== the way leads to a file

/-- For every base without steps upwards, and whatever there is in the path: there
is a way between them exactly if they begin alike, at the root or not, and it is
a relative path that leads from the base where the path leads. So under one
project and such a root, files have one name only if they are the same without
their detours. -/
theorem way_leads (base : FilePath) (hbase : .up ∉ base.components) :
    (∀ p : FilePath,
      (FilePath.relative? base p = none ↔ base.isAbsolute ≠ p.isAbsolute) ∧
      ∀ way, FilePath.relative? base p = some way →
        way.isRelative = true ∧ (base.join way).resolved = p.resolved) ∧
    ∀ (project : String) (p q : FilePath) (identity : String),
      relocatableIdentity project base p = .ok identity →
      relocatableIdentity project base q = .ok identity → p.resolved = q.resolved := by
  refine ⟨fun p => ⟨FilePath.relative?_eq_none_iff, fun way h => ?_⟩,
    fun project p q identity => resolved_of_identity hbase⟩
  obtain ⟨components, hway, rfl⟩ := Option.map_eq_some_iff.1 h
  refine ⟨?_, FilePath.resolved_join_way hbase hway⟩
  unfold FilePath.isRelative
  rw [FilePath.isAbsolute_ofComponents (FilePath.isMove_of_way? hway)]
  rfl

/-- The general statement for a file that is reached from the root upwards, with
detours of its own in its path that lead upwards from what both have in common. -/
theorem way_leads_upwards :
    .up ∉ (⟨"/w/./app//"⟩ : FilePath).components ∧
      FilePath.relative? ⟨"/w/./app//"⟩ ⟨"/w/lib//../a/../../b.js"⟩
        = some ⟨"../lib/../a/../../b.js"⟩ ∧
      (FilePath.join ⟨"/w/./app//"⟩ ⟨"../lib/../a/../../b.js"⟩).resolved
        = (⟨"/w/lib//../a/../../b.js"⟩ : FilePath).resolved ∧
      (⟨"/w/lib//../a/../../b.js"⟩ : FilePath).resolved = [.root, .name "b.js"] := by
  have hbase : .up ∉ (⟨"/w/./app//"⟩ : FilePath).components := by decide +kernel
  have hway : FilePath.relative? ⟨"/w/./app//"⟩ ⟨"/w/lib//../a/../../b.js"⟩
      = some ⟨"../lib/../a/../../b.js"⟩ := by decide +kernel
  obtain ⟨-, hleads⟩ := (way_leads _ hbase).1 ⟨"/w/lib//../a/../../b.js"⟩
  exact ⟨hbase, hway, (hleads _ hway).2, by decide +kernel⟩

-- ================================================== one root, written otherwise

/-- Two absolute roots give all files the same names exactly if they make the same
moves, that is, if they differ in no more than `.` and repeated slashes. Roots
without steps upwards do so as soon as they are one directory; where there is a
detour in one of them, the files of that directory have other names from it. -/
theorem names_from_roots (h : root.isAbsolute = true) (h' : root'.isAbsolute = true)
    (project : String) :
    ((∀ p : FilePath, p.isAbsolute = true →
        relocatableIdentity project root p = relocatableIdentity project root' p)
      ↔ root.moves = root'.moves) ∧
    (.up ∉ root.components → .up ∉ root'.components →
      (root.moves = root'.moves ↔ root.resolved = root'.resolved)) := by
  refine ⟨⟨fun hnames => ?_, fun hmoves p hp => ?_⟩, fun hup hup' => ?_⟩
  · -- a root has an empty way to itself, and so must the other have to it
    have hself : FilePath.way? root root = some [] := (FilePath.way?_eq_nil_iff rfl).2 rfl
    have hsame := (relocatableIdentity_eq_iff rfl (h'.trans h.symm) project).1 (hnames root h)
    exact ((FilePath.way?_eq_nil_iff (h'.trans h.symm)).1 (hsame.symm.trans hself)).symm
  · rw [relocatableIdentity_eq_iff (h.trans hp.symm) (h'.trans hp.symm)]
    exact FilePath.way?_congr (h.trans h'.symm) hmoves p
  · rw [FilePath.resolved_of_up_not_mem hup, FilePath.resolved_of_up_not_mem hup']

/-- The general statement for a root that is written with all that is idle, and a
file that lies outside of it. -/
theorem names_from_roots_idle :
    (⟨"/w/.//src/./"⟩ : FilePath).isAbsolute = true ∧ (⟨"/w/src"⟩ : FilePath).isAbsolute = true ∧
      (⟨"/w/.//src/./"⟩ : FilePath).moves = (⟨"/w/src"⟩ : FilePath).moves ∧
      relocatableIdentity "app" ⟨"/w/.//src/./"⟩ ⟨"/w/lib/../a.js"⟩
        = relocatableIdentity "app" ⟨"/w/src"⟩ ⟨"/w/lib/../a.js"⟩ := by
  have hmoves : (⟨"/w/.//src/./"⟩ : FilePath).moves = (⟨"/w/src"⟩ : FilePath).moves := by
    decide +kernel
  have hroots := @names_from_roots ⟨"/w/.//src/./"⟩ ⟨"/w/src"⟩ (by decide +kernel)
    (by decide +kernel) "app"
  exact ⟨by decide +kernel, by decide +kernel, hmoves,
    hroots.1.2 hmoves ⟨"/w/lib/../a.js"⟩ (by decide +kernel)⟩

/-- The root that options in `/w/cfg` make of `../src` is the directory `/w/src`. A
file in it is named by steps upwards from the one, and by its own name from the
other. -/
theorem detour_renames :
    let written : Options := { cacheSourceRoot := some ⟨"../src"⟩ }
    (written.seenFrom ⟨"/w/cfg/transload.json"⟩).cacheSourceRoot = some ⟨"/w/cfg/../src"⟩ ∧
      (⟨"/w/cfg/../src"⟩ : FilePath).resolved = (⟨"/w/src"⟩ : FilePath).resolved ∧
      (relocatableIdentity "app" ⟨"/w/cfg/../src"⟩ ⟨"/w/src/a.js"⟩).toOption
        = some "app:../../../src/a.js" ∧
      (relocatableIdentity "app" ⟨"/w/src"⟩ ⟨"/w/src/a.js"⟩).toOption = some "app:a.js" := by
  decide +kernel

end TransformCache.CacheKey
