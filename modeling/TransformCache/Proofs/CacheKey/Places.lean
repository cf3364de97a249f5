/-
What a key gives away of a file.

Keys that were made of the same options differ in the name of the file alone,
and their texts give that name away, whatever else is among the options
(`filename_of_canonical`). Where files are named by their paths that settles it.

Where they are named from a source root, files of one name are the same without
their detours, as long as the root has no steps upwards (`resolved_of_identity`).
What is left of a path without its detours are the names of the place that it
leads to (`resolved_of_isAbsolute`). So files of one name lie at one place, and
show one checksum.

In either case files that share a key in one run share the stamp as well
(`stamp_of_build`).
-/
import TransformCache.Proofs.CacheKey
import TransformCache.Proofs.CacheKey.Identity
import TransformCache.Proofs.FileSystem.Trail
import TransformCache.Proofs.Json.Extent

namespace TransformCache

-- ========================================================== names in a text

namespace Json

theorem compactMembers_cons (key : String) (value : Json) {rest : List (String × Json)}
    (h : rest ≠ []) :
    compactMembers ((key, value) :: rest)
      = stringChars key ++ ':' :: (compactChars value ++ ',' :: compactMembers rest) := by
  rw [compactMembers]
  exact h

/-- The first of several members is given away if the others are the same. -/
theorem string_of_compactMembers_cons {key p q : String} (rest : List (String × Json))
    (h : compactMembers ((key, .string p) :: rest) = compactMembers ((key, .string q) :: rest)) :
    p = q := by
  have hvalue : compactChars (.string p) = compactChars (.string q) := by
    cases rest with
    | nil => exact (List.cons.inj (List.append_cancel_left h)).2
    | cons m more =>
        rw [compactMembers_cons _ _ (List.cons_ne_nil _ _),
          compactMembers_cons _ _ (List.cons_ne_nil _ _)] at h
        exact List.append_cancel_right (List.cons.inj (List.append_cancel_left h)).2
  exact stringChars_injective hvalue

/-- One string in an object is given away by the text of the object, whatever
else is in it. -/
theorem string_of_compactMembers_insert {key p q : String} (members : List (String × Json))
    (h : compactMembers (Members.insert key (.string p) members)
      = compactMembers (Members.insert key (.string q) members)) : p = q := by
  induction members with
  | nil => exact string_of_compactMembers_cons [] h
  | cons head rest ih =>
      obtain ⟨k, v⟩ := head
      unfold Members.insert at h
      by_cases hbefore : key < k
      · rw [if_pos hbefore, if_pos hbefore] at h
        exact string_of_compactMembers_cons _ h
      · rw [if_neg hbefore, if_neg hbefore] at h
        by_cases hhere : key = k
        · rw [if_pos hhere, if_pos hhere] at h
          exact string_of_compactMembers_cons _ h
        · rw [if_neg hhere, if_neg hhere, compactMembers_cons _ _ (Members.insert_ne_nil _ _ _),
            compactMembers_cons _ _ (Members.insert_ne_nil _ _ _)] at h
          have hafter := (List.cons.inj (List.append_cancel_left h)).2
          exact ih (List.cons.inj (List.append_cancel_left hafter)).2

end Json

namespace EngineOptions

/-- Texts of the same options under two names give the names away, and what
follows them. -/
theorem filename_of_canonical {o : EngineOptions} {p q : String} {tail : String}
    (h : canonical (withFilename o p) ++ ":" ++ tail = canonical (withFilename o q) ++ ":" ++ tail) :
    p = q := by
  have htexts := congrArg String.toList h
  simp only [String.toList_append, canonical, Json.compact, String.toList_ofList] at htexts
  have hchars : Json.compactChars (toJson (withFilename o p))
      = Json.compactChars (toJson (withFilename o q)) :=
    List.append_cancel_right (List.append_cancel_right htexts)
  have hmembers := List.append_cancel_right (List.cons.inj hchars).2
  exact Json.string_of_compactMembers_insert o.members hmembers

end EngineOptions

-- ================================================================= places

namespace FilePath

variable {p q : FilePath}

/-- Where a component leads to from a directory. -/
def go (here : Location) : Component → Location
  | .root => []
  | .current => here
  | .up => here.dropLast
  | .name text => here ++ [text]

/-- Segments lead where the moves lead that they make. -/
theorem foldl_move_eq (segments : List String) :
    ∀ here : Location,
      segments.foldl FileSystem.move here = (segments.filterMap move?).foldl go here := by
  induction segments with
  | nil => exact fun _ => rfl
  | cons segment rest ih =>
      intro here
      rw [List.foldl_cons, ih, List.filterMap_cons]
      unfold FileSystem.move move?
      by_cases hidle : segment = "" ∨ segment = "."
      · rw [if_pos hidle, if_pos hidle]
      · rw [if_neg hidle, if_neg hidle]
        by_cases hup : segment = ".."
        · rw [if_pos hup, if_pos hup]
          rfl
        · rw [if_neg hup, if_neg hup]
          rfl

/-- A path leads where its moves lead. -/
theorem goal_of_absolute (h : p.isAbsolute = true) (home : Location) :
    FileSystem.goal home p = (p.segments.filterMap move?).foldl go [] := by
  unfold FileSystem.goal FileSystem.origin
  rw [h, if_pos rfl, foldl_move_eq, filterMap_segments]

/-- What is left of an absolute path without its detours are the names of the
place that it leads to. -/
theorem resolved_of_isAbsolute (h : p.isAbsolute = true) (home : Location) :
    p.resolved = .root :: (FileSystem.goal home p).map .name := by
  let written (here : Location) : List Component := (here.map Component.name).reverse ++ [.root]
  have hstep : ∀ (here : Location) (c : Component),
      resolveStep (written here) c = written (go here c) := by
    intro here c
    cases c with
    | root => rfl
    | current => rfl
    | name text => simp [written, resolveStep, go]
    | up =>
        rcases List.eq_nil_or_concat here with rfl | ⟨before, text, rfl⟩
        · rfl
        · simp [written, resolveStep, go]
  have hfold : (p.segments.filterMap move?).foldl resolveStep (written [])
      = written ((p.segments.filterMap move?).foldl go []) := List.foldl_hom written hstep
  rw [resolved_eq_moves, moves_eq, h, goal_of_absolute h]
  show (List.foldl resolveStep (written []) (p.segments.filterMap move?)).reverse = _
  rw [hfold]
  simp [written]

/-- Absolute paths of which the same is left lead to one place. -/
theorem goal_of_resolved (hp : p.isAbsolute = true) (hq : q.isAbsolute = true)
    (h : p.resolved = q.resolved) (home : Location) :
    FileSystem.goal home p = FileSystem.goal home q := by
  rw [resolved_of_isAbsolute hp home, resolved_of_isAbsolute hq home] at h
  exact (List.map_inj_right fun _ _ => Component.name.inj).1 (List.cons.inj h).2

end FilePath

namespace CacheKey

open EngineOptions (withFilename)

variable {p q root : FilePath}

/-- Files at one place have one checksum, if they have any. -/
theorem checksum_of_goal {fs : FileSystem} {digest digest' : String}
    (h : fileChecksum fs p = .ok digest) (h' : fileChecksum fs q = .ok digest')
    (hgoal : FileSystem.goal fs.workingDirectory p = FileSystem.goal fs.workingDirectory q) :
    digest = digest' := by
  have hread : ∀ {x : FilePath} {d : String}, fileChecksum fs x = .ok d →
      ∃ bytes time, fs.entry (FileSystem.goal fs.workingDirectory x) = some (.file bytes time) ∧
        d = checksumText (Utf8.decodeLossy bytes) := by
    intro x d hok
    unfold fileChecksum at hok
    split at hok
    next bytes hbytes =>
      obtain ⟨place, time, hfound⟩ := FileSystem.read_eq_ok_iff.1 hbytes
      obtain ⟨-, -, hentry⟩ := FileSystem.lookUp_eq_ok_iff.1 hfound
      rw [FileSystem.place_of_lookUp hfound] at hentry
      exact ⟨bytes, time, hentry, (Except.ok.inj hok).symm⟩
    next => cases hok
  obtain ⟨bytes, time, hentry, hdigest⟩ := hread h
  obtain ⟨bytes', time', hentry', hdigest'⟩ := hread h'
  rw [hgoal, hentry'] at hentry
  cases hentry
  exact hdigest.trans hdigest'.symm

/-- Files that share a key share the stamp: those of one run, which differ at
most in their names. -/
theorem stamp_of_build {fs : FileSystem} {mode : Mode} {base : EngineOptions}
    {version key : String} {discriminator : Option String} {stamp stamp' : Cache.Stamp}
    (hroot : ∀ root project, mode = .checksum root project → .up ∉ root.components)
    (hp : p.isAbsolute = true) (hq : q.isAbsolute = true)
    (h : build (if mode.isRelocatable then base else withFilename base p.text) p mode version
      discriminator = .ok key)
    (h' : build (if mode.isRelocatable then base else withFilename base q.text) q mode version
      discriminator = .ok key)
    (hstamp : mode.currentStamp fs p = .ok stamp) (hstamp' : mode.currentStamp fs q = .ok stamp') :
    stamp = stamp' := by
  cases mode with
  | mtime =>
      have hsame : p.text = q.text :=
        EngineOptions.filename_of_canonical (Except.ok.inj (h.trans h'.symm))
      rw [show p = q from congrArg FilePath.mk hsame, hstamp'] at hstamp
      cases hstamp
      rfl
  | checksum root project =>
      unfold build effectiveOptions at h h'
      obtain ⟨_, heffective, hkey⟩ := map_eq_ok.1 h
      obtain ⟨identity, hidentity, rfl⟩ := map_eq_ok.1 heffective
      obtain ⟨_, heffective', hkey'⟩ := map_eq_ok.1 h'
      obtain ⟨identity', hidentity', rfl⟩ := map_eq_ok.1 heffective'
      have hsame : identity = identity' :=
        EngineOptions.filename_of_canonical (hkey.trans hkey'.symm)
      subst hsame
      obtain ⟨digest, hdigest, rfl⟩ := map_eq_ok.1 hstamp
      obtain ⟨digest', hdigest', rfl⟩ := map_eq_ok.1 hstamp'
      rw [checksum_of_goal hdigest hdigest'
        (FilePath.goal_of_resolved hp hq
          (resolved_of_identity (hroot root project rfl) hidentity hidentity') _)]

end CacheKey

end TransformCache
