/-
What counts as vendored.

Without patterns a file is judged by the way to it from the working directory
(`ignores_unlisted`). What is joined to a directory is all of that way, so the
verdict is about the joined part alone: not about the directory, whatever it
is called and however it is written (`ignores_join`).

The way to a path that is not below the directory goes up first, and a step
upwards has no name. What counts is what the path does not have in common with
the directory (`ignores_iff_drop`); an absolute path has no point among its
components, so that is what follows the longest list that both begin with.
-/
import TransformCache.Filter
import TransformCache.Proofs.FilePath.Resolution

namespace TransformCache

-- =========================================== what two lists both begin with

namespace FilePath

/-- The longest list that both lists begin with. -/
structure LongestCommon (common as bs : List Component) : Prop where
  left : common <+: as
  right : common <+: bs
  longest : ∀ other, other <+: as → other <+: bs → other.length ≤ common.length

/-- `dropCommon` takes away all that two lists have in common at the front. -/
theorem dropCommon_longest (as bs : List Component) :
    ∃ common, LongestCommon common as bs ∧ (dropCommon as bs).2 = bs.drop common.length := by
  induction as generalizing bs with
  | nil =>
      refine ⟨[], ⟨List.nil_prefix, List.nil_prefix, fun other hleft _ => ?_⟩, rfl⟩
      exact hleft.length_le
  | cons a as ih =>
      cases bs with
      | nil =>
          refine ⟨[], ⟨List.nil_prefix, List.nil_prefix, fun other _ hright => ?_⟩, rfl⟩
          exact hright.length_le
      | cons b bs =>
          rw [dropCommon]
          split
          next hsame =>
            subst hsame
            obtain ⟨common, hcommon, hdrop⟩ := ih bs
            refine ⟨a :: common, ⟨?_, ?_, fun other hleft hright => ?_⟩, hdrop⟩
            · exact (List.prefix_cons_inj a).2 hcommon.left
            · exact (List.prefix_cons_inj a).2 hcommon.right
            · cases other with
              | nil => exact Nat.zero_le _
              | cons o other =>
                  have hlen := hcommon.longest other
                    (List.cons_prefix_cons.1 hleft).2 (List.cons_prefix_cons.1 hright).2
                  exact Nat.succ_le_succ hlen
          next hother =>
            refine ⟨[], ⟨List.nil_prefix, List.nil_prefix, fun other hleft hright => ?_⟩, rfl⟩
            cases other with
            | nil => exact Nat.le_refl _
            | cons o other =>
                -- it would begin with both heads
                exact absurd ((List.cons_prefix_cons.1 hleft).1.symm.trans
                  (List.cons_prefix_cons.1 hright).1) hother

/-- A point names something only where a relative path begins with it. -/
theorem components_eq_moves_of_absolute {p : FilePath} (h : p.isAbsolute = true) :
    p.components = p.moves := by
  refine (List.filter_eq_self.2 fun c hc => ?_).symm
  unfold components body at hc
  rw [h, segments_of_isAbsolute h] at hc
  rcases List.mem_cons.1 hc with rfl | hc
  · rfl
  · obtain ⟨s, hs, rfl⟩ := List.mem_map.1 hc
    obtain ⟨hmem, hsignificant⟩ := List.mem_filter.1 hs
    obtain ⟨text, -, rfl⟩ := List.mem_map.1 hmem
    have htext : text ≠ "" ∧ text ≠ "." := by simpa [Segment.inner] using hsignificant
    unfold Segment.component Segment.inner
    rw [if_neg htext.2]
    split
    · rfl
    · rfl

/-- A name is among a path's moves where it is one of its segments. -/
theorem name_mem_moves {p : FilePath} {text : String} (hmove : move? text = some (.name text)) :
    .name text ∈ p.moves ↔ text ∈ p.segments := by
  rw [moves_eq, List.mem_append, List.mem_filterMap]
  constructor
  · rintro (hroot | ⟨segment, hsegment, hname⟩)
    · unfold rootMove at hroot
      split at hroot
      · cases List.mem_singleton.1 hroot
      · cases hroot
    · unfold move? at hname
      split at hname
      · cases hname
      · split at hname
        · cases hname
        · cases hname
          exact hsegment
  · exact fun hmem => .inr ⟨text, hmem, hmove⟩

end FilePath

-- ============================================================== the verdict

namespace Filter

open FilePath

/-- The filter of a working directory, without lists of patterns. -/
def unlisted (directory : FilePath) : Filter := { workingDirectory := directory }

theorem vendorDirectory_move : move? vendorDirectory = some (.name vendorDirectory) := by decide

/-- Without lists the way from the working directory decides, if there is one. -/
theorem ignores_unlisted {directory p : FilePath} {way : List Component}
    (h : way? directory p = some way) :
    (unlisted directory).ignores p = true ↔ .name vendorDirectory ∈ way := by
  have hread : (ofComponents way).components = way := components_ofComponents (isMove_of_way? h)
  have hvendored : (unlisted directory).isVendored p
      = way.contains (.name vendorDirectory) := by
    unfold isVendored relative?
    show ((Option.map ofComponents (way? directory p)).getD p).components.contains _ = _
    rw [h, Option.map_some, Option.getD_some, hread]
  show (unlisted directory).isVendored p = true ↔ _
  rw [hvendored, List.contains_iff_mem]

/-- What is joined to the working directory is judged by its own segments. -/
theorem ignores_join {directory r : FilePath} (h : r.isAbsolute = false) :
    (unlisted directory).ignores (directory.join r) = true ↔ vendorDirectory ∈ r.segments := by
  rw [ignores_unlisted (way?_join h directory), name_mem_moves vendorDirectory_move]

/-- Steps upwards have no name, so only what is not in common counts. -/
theorem ignores_iff_drop {directory p : FilePath} (hdirectory : directory.isAbsolute = true)
    (hp : p.isAbsolute = true) :
    (unlisted directory).ignores p = true
      ↔ .name vendorDirectory ∈ (dropCommon directory.components p.components).2 := by
  have hway : way? directory p
      = some ((dropCommon directory.components p.components).1.map (fun _ => .up)
        ++ (dropCommon directory.components p.components).2) := by
    unfold way?
    rw [if_neg (by simp [hdirectory, hp]), components_eq_moves_of_absolute hdirectory,
      components_eq_moves_of_absolute hp]
  rw [ignores_unlisted hway, List.mem_append]
  constructor
  · rintro (hup | hdown)
    · obtain ⟨-, -, hup⟩ := List.mem_map.1 hup
      cases hup
    · exact hdown
  · exact .inr

/-- The vendoring heuristic looks only below the working directory. Whatever
two directories there are, what is joined to the one is judged as if it were
joined to the other, and left alone where a segment of it is the vendor
directory. Of an absolute path, seen from an absolute directory, the segments
count that follow the longest part both begin with. -/
theorem ignores_below :
    (∀ c₁ c₂ r : FilePath, r.isRelative = true →
      (unlisted c₁).ignores (c₁.join r) = (unlisted c₂).ignores (c₂.join r) ∧
        ((unlisted c₁).ignores (c₁.join r) = true ↔ vendorDirectory ∈ r.segments)) ∧
    ∀ c p : FilePath, c.isAbsolute = true → p.isAbsolute = true →
      (∃ common, LongestCommon common c.components p.components) ∧
        ∀ common, LongestCommon common c.components p.components →
          ((unlisted c).ignores p = true
            ↔ .name vendorDirectory ∈ p.components.drop common.length) := by
  constructor
  · intro c₁ c₂ r hr
    have hrelative : r.isAbsolute = false := by simpa [isRelative] using hr
    refine ⟨?_, ignores_join hrelative⟩
    rw [Bool.eq_iff_iff, ignores_join hrelative, ignores_join hrelative]
  · intro c p hc hp
    obtain ⟨common, hcommon, hdrop⟩ := dropCommon_longest c.components p.components
    refine ⟨⟨common, hcommon⟩, fun other hother => ?_⟩
    have hlength : other.length = common.length :=
      Nat.le_antisymm (hcommon.longest other hother.left hother.right)
        (hother.longest common hcommon.left hcommon.right)
    rw [ignores_iff_drop hc hp, hdrop, hlength]

/-- A working directory inside a vendored package, written with a point, and
another one that repeats a slash: the joined part is judged alike from both.
From a package that is vendored itself the directory it shares with its
neighbour does not count, and what is vendored in the neighbour does. -/
theorem ignores_below_packages :
    (unlisted ⟨"/home/node_modules/./me"⟩).ignores
        (.join ⟨"/home/node_modules/./me"⟩ ⟨"../src//node_modules/./a.js"⟩)
      = (unlisted ⟨"node_modules//x"⟩).ignores
          (.join ⟨"node_modules//x"⟩ ⟨"../src//node_modules/./a.js"⟩) ∧
    (unlisted ⟨"node_modules//x"⟩).ignores
        (.join ⟨"node_modules//x"⟩ ⟨"../src//node_modules/./a.js"⟩) = true ∧
    (unlisted ⟨"/home/node_modules/work"⟩).ignores
        ⟨"/home/node_modules/other/node_modules/a.js"⟩ = true := by
  obtain ⟨hjoin, hbelow⟩ := ignores_below
  refine ⟨(hjoin _ _ _ (by decide)).1, (hjoin _ ⟨""⟩ _ (by decide)).2.2 (by decide +kernel), ?_⟩
  have hcommon : LongestCommon [.root, .name "home", .name "node_modules"]
      (FilePath.components ⟨"/home/node_modules/work"⟩)
      (FilePath.components ⟨"/home/node_modules/other/node_modules/a.js"⟩) := by
    refine ⟨by decide +kernel, by decide +kernel, fun other hleft hright => ?_⟩
    -- a longer one would be the whole directory
    by_contra hlonger
    have hlength := hleft.length_le
    have hfour : (FilePath.components ⟨"/home/node_modules/work"⟩).length = 4 := by
      decide +kernel
    have hwhole := hleft.eq_of_length_le (by simp at hlonger; omega)
    subst hwhole
    revert hright
    decide +kernel
  exact ((hbelow _ _ (by decide) (by decide)).2 _ hcommon).2 (by decide +kernel)

end Filter

end TransformCache
