/-
What a flush leaves on the disk, and what a store opened over it finds.

A flush that succeeds leaves the store's entries, and nothing else, to be read
from its file (`read_of_flush`). A flush that fails may still have made some of
the directories on the way, but then the file was not there before and is not
there after it: on a tree, a flush that fails leaves the disk as it was, or a
disk from which the file cannot be read (`flush_error`). So there is no third
content that a later load could meet.

Whatever becomes of a flush, it changes nothing but what is on the way of its
file, and no directory there (`filling_flush`).
-/
import TransformCache.Cache.Store
import TransformCache.Proofs.FileSystem.Trail

namespace TransformCache.Cache.Store

variable {s : Store} {fs fs' : FileSystem}

-- ====================================================== what a flush can do

/-- Makes the directories that the file of a store lies in. -/
def prepare (s : Store) (fs : FileSystem) : Except FileError Unit × FileSystem :=
  match s.path.parent? with
  | some parent => if parent.text = "" then (.ok (), fs) else fs.makeDirectories parent
  | none => (.ok (), fs)

/-- The ways in which a flush ends. -/
inductive Flushing (s : Store) (fs : FileSystem) : Except Error Unit → FileSystem → Prop
  | off (h : s.enabled = false) : Flushing s fs (.ok ()) fs
  | refused (e : Error) (h : s.enabled = true) : Flushing s fs (.error e) fs
  | stopped {reason : FileError} {made : FileSystem} (h : s.enabled = true)
      (hmade : s.prepare fs = (.error reason, made)) :
      Flushing s fs (.error (.unwritable s.path reason)) made
  | failed {reason : FileError} {made : FileSystem} (h : s.enabled = true)
      (hmade : s.prepare fs = (.ok (), made))
      (hwrite : made.write s.path (entriesFile s.entries) = .error reason) :
      Flushing s fs (.error (.unwritable s.path reason)) made
  | written {made after : FileSystem} (h : s.enabled = true)
      (hmade : s.prepare fs = (.ok (), made))
      (hwrite : made.write s.path (entriesFile s.entries) = .ok after) :
      Flushing s fs (.ok ()) after

theorem flushing (s : Store) (fs : FileSystem) :
    Flushing s fs (s.flush fs).1 (s.flush fs).2 := by
  rcases hflush : s.flush fs with ⟨result, after⟩
  unfold flush at hflush
  split at hflush
  next h =>
    simp only at hflush
    split at hflush
    · cases hflush
      exact .refused _ h
    · split at hflush
      next reason made hmade =>
        cases hflush
        exact .stopped h hmade
      next made hmade =>
        split at hflush
        next hwrite =>
          cases hflush
          exact .written h hmade hwrite
        next hwrite =>
          cases hflush
          exact .failed h hmade hwrite
  next h =>
    cases hflush
    exact .off (Bool.of_not_eq_true h)

/-- A flush does not look at the mark that one is pending. -/
theorem flush_beginFlush (s : Store) (fs : FileSystem) :
    s.beginFlush.flush fs = s.flush fs := rfl

-- ====================================================== what is on the disk

theorem flush_of_disabled (h : s.enabled = false) (fs : FileSystem) :
    s.flush fs = (.ok (), fs) := by
  simp [flush, h]

/-- What a flush writes is what the store holds. -/
theorem read_of_flush (hon : s.enabled = true) (h : s.flush fs = (.ok (), fs')) :
    fs'.read s.path = .ok (entriesFile s.entries) := by
  have hf := flushing s fs
  rw [h] at hf
  cases hf with
  | off hoff => rw [hon] at hoff; cases hoff
  | written _ _ hwrite => exact FileSystem.read_write hwrite

/-- Directories on the way to the file that are not finished hide it. -/
theorem read_of_prepare {reason : FileError} (h : s.prepare fs = (.error reason, fs')) :
    fs' = fs ∨ ∃ e, fs'.read s.path = .error e := by
  unfold prepare at h
  cases hq : s.path.parent? with
  | none => rw [hq] at h; cases h
  | some parent =>
      rw [hq] at h
      simp only at h
      split at h
      · cases h
      next hne =>
        rcases FileSystem.makeChain_error _ parent h with heq | ⟨-, hno⟩
        · exact .inl heq
        · right
          -- a file that is found lies in a directory, and there is none
          cases hl : fs'.lookUp s.path with
          | error e => exact ⟨e, by rw [FileSystem.read, hl]; rfl⟩
          | ok found =>
              rw [FileSystem.isDirectory_parent hl hq hne] at hno
              cases hno

theorem tree_prepare (ht : fs.Tree) (s : Store) : (s.prepare fs).2.Tree := by
  unfold prepare
  split
  · split
    · exact ht
    · exact ht.makeChain _
  · exact ht

/-- A flush that fails leaves nothing new to be read from the file. -/
theorem flush_error {e : Error} (ht : fs.Tree) (h : s.flush fs = (.error e, fs')) :
    fs' = fs ∨ ∃ reason, fs'.read s.path = .error reason := by
  have hf := flushing s fs
  rw [h] at hf
  cases hf with
  | refused => exact .inl rfl
  | stopped _ hmade => exact read_of_prepare hmade
  | failed _ hmade hwrite =>
      right
      have htree : fs'.Tree := by
        have := tree_prepare ht s
        rw [hmade] at this
        exact this
      cases hread : fs'.read s.path with
      | error reason => exact ⟨reason, rfl⟩
      | ok bytes =>
          obtain ⟨after, hafter⟩ := FileSystem.write_of_read htree hread
            (entriesFile s.entries)
          rw [hafter] at hwrite
          cases hwrite

/-- A flush makes a tree of a tree. -/
theorem tree_flush (ht : fs.Tree) (s : Store) : (s.flush fs).2.Tree := by
  have hprepare := tree_prepare ht s
  have hf := flushing s fs
  generalize (s.flush fs).1 = result at hf
  generalize (s.flush fs).2 = after at hf ⊢
  cases hf with
  | off => exact ht
  | refused => exact ht
  | stopped _ hmade => rw [hmade] at hprepare; exact hprepare
  | failed _ hmade => rw [hmade] at hprepare; exact hprepare
  | written _ hmade hwrite =>
      rw [hmade] at hprepare
      exact hprepare.write hwrite

-- ====================================================== where a flush writes

theorem filling_prepare (s : Store) (fs : FileSystem) :
    FileSystem.Filling (FileSystem.way fs.workingDirectory s.path) fs (s.prepare fs).2 := by
  unfold prepare
  cases hparent : s.path.parent? with
  | none => exact .refl _ _
  | some parent =>
      simp only
      split
      next => exact .refl _ _
      next hne =>
        exact (FileSystem.filling_makeAncestors _ parent).mono fun l =>
          FileSystem.way_parent hparent hne

/-- A flush changes nothing but places on the way of its file that are no
directories, whatever becomes of it. -/
theorem filling_flush (s : Store) (fs : FileSystem) :
    FileSystem.Filling (FileSystem.way fs.workingDirectory s.path) fs (s.flush fs).2 := by
  have hprepare := filling_prepare s fs
  have hf := flushing s fs
  generalize (s.flush fs).1 = result at hf
  generalize (s.flush fs).2 = after at hf ⊢
  cases hf with
  | off => exact .refl _ _
  | refused => exact .refl _ _
  | stopped _ hmade => rw [hmade] at hprepare; exact hprepare
  | failed _ hmade => rw [hmade] at hprepare; exact hprepare
  | written _ hmade hwrite =>
      rw [hmade] at hprepare
      have hwritten := FileSystem.filling_write hwrite
      rw [hprepare.workingDirectory] at hwritten
      exact hprepare.trans hwritten

-- ====================================================== what a load finds

/-- The disk holds entries for a store at a path. -/
def Stored (fs : FileSystem) (path : FilePath) (entries : Keyed Entry) : Prop :=
  ∃ file, fs.read path = .ok file ∧ parseEntries file = .ok entries

theorem load_of_stored {entries : Keyed Entry} (h : Stored fs s.path entries) :
    s.load fs = .ok (entries.size, { s with entries }) := by
  obtain ⟨file, hread, hparse⟩ := h
  simp [load, FileSystem.holds_of_read hread, hread, hparse]

theorem load_of_missing (h : fs.holds s.path = false) : s.load fs = .ok (0, s) := by
  unfold load
  rw [h]
  rfl

/-- A load takes over what is stored, or finds no file. -/
theorem load_eq_ok {n : Nat} {s' : Store} (h : s.load fs = .ok (n, s')) :
    (∃ entries, Stored fs s.path entries ∧ n = entries.size ∧ s' = { s with entries }) ∨
      fs.holds s.path = false ∧ n = 0 ∧ s' = s := by
  unfold load at h
  cases hholds : fs.holds s.path with
  | false =>
      rw [hholds] at h
      cases h
      exact .inr ⟨rfl, rfl, rfl⟩
  | true =>
      rw [if_pos hholds] at h
      cases hread : fs.read s.path with
      | error reason => rw [hread] at h; cases h
      | ok file =>
          rw [hread] at h
          simp only at h
          cases hparse : parseEntries file with
          | error e => rw [hparse] at h; cases h
          | ok entries =>
              rw [hparse] at h
              cases h
              exact .inl ⟨entries, ⟨file, hread, hparse⟩, rfl, rfl⟩

/-- Where there is a file to be read, a load takes over the entries in it. -/
theorem load_eq_ok_iff_of_read {file : Bytes} (hread : fs.read s.path = .ok file)
    {loaded : Nat × Store} :
    s.load fs = .ok loaded ↔
      ∃ entries, parseEntries file = .ok entries ∧ loaded = (entries.size, { s with entries }) := by
  constructor
  · intro hloaded
    rcases load_eq_ok hloaded with ⟨entries, ⟨file', hfile, hparse⟩, hsize, hstore⟩ | ⟨hmissing, -⟩
    · cases hread.symm.trans hfile
      exact ⟨entries, hparse, Prod.ext hsize hstore⟩
    · rw [FileSystem.holds_of_read hread] at hmissing
      cases hmissing
  · rintro ⟨entries, hparse, rfl⟩
    exact load_of_stored ⟨file, hread, hparse⟩

/-- It takes over given entries if they are what is read from the file. -/
theorem load_eq_iff_of_read {file : Bytes} (hread : fs.read s.path = .ok file)
    {entries : Keyed Entry} :
    s.load fs = .ok (entries.size, { s with entries }) ↔ parseEntries file = .ok entries := by
  rw [load_eq_ok_iff_of_read hread]
  constructor
  · rintro ⟨found, hparse, heq⟩
    rw [show entries = found from congrArg (·.2.entries) heq]
    exact hparse
  · exact fun hparse => ⟨entries, hparse, rfl⟩

/-- A new store that was loaded is new but for its entries. -/
theorem eq_of_load {path : FilePath} {n : Nat} {s : Store} (h : (new path).load fs = .ok (n, s)) :
    s = { new path with entries := s.entries } := by
  rcases load_eq_ok h with ⟨entries, -, -, rfl⟩ | ⟨-, -, rfl⟩
  · rfl
  · rfl

/-- A store that is opened holds what is stored, or nothing. -/
theorem openAt_cases (path : FilePath) (fs : FileSystem) :
    (∃ entries, Stored fs path entries ∧ openAt path fs = { new path with entries }) ∨
      openAt path fs = new path := by
  unfold openAt
  cases hload : (new path).load fs with
  | error e => exact .inr rfl
  | ok found =>
      obtain ⟨n, s⟩ := found
      rcases load_eq_ok hload with ⟨entries, hstored, -, rfl⟩ | ⟨-, -, rfl⟩
      · exact .inl ⟨entries, hstored, rfl⟩
      · exact .inr rfl

end TransformCache.Cache.Store
