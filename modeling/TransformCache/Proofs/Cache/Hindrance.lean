/-
Flushes that are kept from their file.

What stands on a disk can be in the way of a flush. But that is not all that
can be: a disk is full, or may not be written to. A `Hindrance` is of that
kind. It says that a directory cannot be made, or the file not be written,
however the disk looks; what was written before it stays as it was. A flush
under no hindrance is the flush of the store (`flushUnder_none`), and stores at
work under none are those of a session (`hostUnder_none`).

A flush under any hindrance does one of four things (`attempt`), and three of
them leave all files as they are: it makes directories at the most, and these
only where nothing was (`Grown`).
-/
import TransformCache.Proofs.Cache.Session

namespace TransformCache

namespace FileSystem

variable {fs fs' : FileSystem} {p : FilePath} {bytes : Bytes}

-- ================================================================== files

/-- The bytes of the file at a place, if there is a file. -/
def contents (fs : FileSystem) (place : Location) : Option Bytes :=
  match fs.entry place with
  | some (.file bytes _) => some bytes
  | _ => none

/-- Between two disks only directories have come to be, where nothing was. -/
structure Grown (fs fs' : FileSystem) : Prop where
  entry : ∀ l, fs'.entry l = fs.entry l ∨ fs.entry l = none ∧ fs'.entry l = some .directory
  workingDirectory : fs'.workingDirectory = fs.workingDirectory

theorem Grown.refl (fs : FileSystem) : Grown fs fs := ⟨fun _ => .inl rfl, rfl⟩

theorem Grown.trans {fs'' : FileSystem} (h : Grown fs fs') (h' : Grown fs' fs'') :
    Grown fs fs'' where
  entry l := by
    rcases h'.entry l with hsame | ⟨hnone, hmade⟩
    · rw [hsame]
      exact h.entry l
    · rcases h.entry l with hsame | ⟨-, hmade'⟩
      · exact .inr ⟨hsame ▸ hnone, hmade⟩
      · rw [hnone] at hmade'
        cases hmade'
  workingDirectory := h'.workingDirectory.trans h.workingDirectory

theorem Grown.contents_eq (h : Grown fs fs') (place : Location) :
    fs'.contents place = fs.contents place := by
  unfold contents
  rcases h.entry place with hsame | ⟨hnone, hmade⟩
  · rw [hsame]
  · rw [hnone, hmade]

theorem grown_makeDirectory (h : fs.makeDirectory p = .ok fs') : Grown fs fs' := by
  unfold makeDirectory at h
  obtain ⟨t, -, h⟩ := bind_eq_ok.1 h
  cases t with
  | standing => cases h
  | name place slash =>
      simp only at h
      split at h
      · cases h
      next hvacant =>
        cases h
        refine ⟨fun l => ?_, rfl⟩
        rw [entry_set]
        split
        next hl =>
          right
          rw [hl]
          exact ⟨by simpa using hvacant, rfl⟩
        next => exact .inl rfl

/-- Directories are made where nothing was, however far it comes. -/
theorem grown_makeChain (chain : List FilePath) :
    ∀ fs : FileSystem, Grown fs (fs.makeChain chain).2 := by
  induction chain with
  | nil => exact .refl
  | cons p above ih =>
      intro fs
      have habove := ih fs
      unfold makeChain
      split
      · exact .refl fs
      · split
        next made hmade => exact grown_makeDirectory hmade
        next =>
          split
          next e fs₁ hstopped =>
            rw [hstopped] at habove
            exact habove
          next fs₁ hmade =>
            rw [hmade] at habove
            split
            next made hlast => exact habove.trans (grown_makeDirectory hlast)
            next => exact habove
        next => exact .refl fs

theorem contents_of_write (h : fs.write p bytes = .ok fs') :
    fs'.contents (goal fs.workingDirectory p) = some bytes ∧
      fs'.workingDirectory = fs.workingDirectory := by
  obtain ⟨place, htarget, -, rfl⟩ := write_eq_ok h
  unfold contents
  rw [← place_of_target htarget, entry_set, if_pos rfl]
  exact ⟨rfl, rfl⟩

/-- What is read at a path is the file at its goal. -/
theorem contents_of_read (h : fs.read p = .ok bytes) :
    fs.contents (goal fs.workingDirectory p) = some bytes := by
  obtain ⟨place, time, hfound⟩ := read_eq_ok_iff.1 h
  unfold contents
  rw [← place_of_lookUp hfound, (lookUp_eq_ok_iff.1 hfound).2.2]

end FileSystem

namespace Cache

open FileSystem (Grown ancestors goal)

-- ============================================================= hindrances

/-- What keeps a flush from its file, whatever is on the disk. -/
inductive Hindrance where
  | none
  /-- Of the directory of the file and those that it lies in, the one with so
  many below it cannot be made. -/
  | directory (below : Nat) (reason : FileError)
  /-- The file cannot be written. -/
  | file (reason : FileError)

namespace Hindrance

def makeDirectories (h : Hindrance) (fs : FileSystem) (p : FilePath) :
    Except FileError Unit × FileSystem :=
  match h with
  | .directory below reason =>
    (.error reason, (fs.makeChain ((ancestors (p.text.length + 1) p).drop (below + 1))).2)
  | _ => fs.makeDirectories p

def write (h : Hindrance) (fs : FileSystem) (p : FilePath) (bytes : Bytes) :
    Except FileError FileSystem :=
  match h with
  | .file reason => .error reason
  | _ => fs.write p bytes

variable {fs fs' : FileSystem} {p : FilePath}

theorem grown_makeDirectories (h : Hindrance) (fs : FileSystem) (p : FilePath) :
    Grown fs (h.makeDirectories fs p).2 := by
  cases h with
  | directory below reason => exact FileSystem.grown_makeChain _ fs
  | none => exact FileSystem.grown_makeChain _ fs
  | file reason => exact FileSystem.grown_makeChain _ fs

/-- What is written is written as ever. -/
theorem write_of_ok {h : Hindrance} {bytes : Bytes} (hw : h.write fs p bytes = .ok fs') :
    fs.write p bytes = .ok fs' := by
  cases h with
  | file reason => cases hw
  | none => exact hw
  | directory below reason => exact hw

end Hindrance

namespace Store

/-- Makes the directories that the file of a store lies in. -/
def prepareUnder (h : Hindrance) (s : Store) (fs : FileSystem) :
    Except FileError Unit × FileSystem :=
  match s.path.parent? with
  | some parent => if parent.text = "" then (.ok (), fs) else h.makeDirectories fs parent
  | none => (.ok (), fs)

/-- A flush under a hindrance. -/
def flushUnder (h : Hindrance) (s : Store) (fs : FileSystem) : Except Error Unit × FileSystem :=
  if s.enabled then
    let file := entriesFile s.entries
    if s.sizeLimit < file.length then (.error (.tooLarge file.length s.sizeLimit), fs)
    else
      match s.prepareUnder h fs with
      | (.error reason, fs) => (.error (.unwritable s.path reason), fs)
      | (.ok (), fs) =>
        match h.write fs s.path file with
        | .ok written => (.ok (), written)
        | .error reason => (.error (.unwritable s.path reason), fs)
  else (.ok (), fs)

theorem flushUnder_none (s : Store) (fs : FileSystem) : s.flushUnder .none fs = s.flush fs := rfl

/-- The ways in which a flush ends, and what then is in the place of its file. -/
inductive Attempt (s : Store) (fs : FileSystem) : Except Error Unit → FileSystem → Prop
  | off (hoff : s.enabled = false) : Attempt s fs (.ok ()) fs
  | tooLarge (hon : s.enabled = true) (hsize : s.sizeLimit < (entriesFile s.entries).length) :
      Attempt s fs (.error (.tooLarge (entriesFile s.entries).length s.sizeLimit)) fs
  | failed {reason : FileError} {made : FileSystem} (hon : s.enabled = true)
      (hsize : (entriesFile s.entries).length ≤ s.sizeLimit) (hgrown : Grown fs made) :
      Attempt s fs (.error (.unwritable s.path reason)) made
  | written {after : FileSystem} (hon : s.enabled = true)
      (hsize : (entriesFile s.entries).length ≤ s.sizeLimit)
      (hcontents : after.contents (goal fs.workingDirectory s.path)
        = some (entriesFile s.entries))
      (hdirectory : after.workingDirectory = fs.workingDirectory) :
      Attempt s fs (.ok ()) after

theorem grown_prepareUnder (h : Hindrance) (s : Store) (fs : FileSystem) :
    Grown fs (s.prepareUnder h fs).2 := by
  unfold prepareUnder
  split
  · split
    · exact .refl fs
    · exact h.grown_makeDirectories fs _
  · exact .refl fs

theorem attempt (h : Hindrance) (s : Store) (fs : FileSystem) :
    Attempt s fs (s.flushUnder h fs).1 (s.flushUnder h fs).2 := by
  have hgrown := s.grown_prepareUnder h fs
  rcases hflush : s.flushUnder h fs with ⟨result, after⟩
  unfold flushUnder at hflush
  split at hflush
  next hon =>
    simp only at hflush
    split at hflush
    next hsize =>
      cases hflush
      exact .tooLarge hon hsize
    next hsize =>
      have hfits := Nat.le_of_not_lt hsize
      split at hflush
      next reason made hmade =>
        cases hflush
        rw [hmade] at hgrown
        exact .failed hon hfits hgrown
      next made hmade =>
        rw [hmade] at hgrown
        split at hflush
        next hwrite =>
          cases hflush
          obtain ⟨hcontents, hdirectory⟩ :=
            FileSystem.contents_of_write (Hindrance.write_of_ok hwrite)
          rw [hgrown.workingDirectory] at hcontents hdirectory
          exact .written hon hfits hcontents hdirectory
        next hwrite =>
          cases hflush
          exact .failed hon hfits hgrown
  next hoff =>
    cases hflush
    exact .off (Bool.of_not_eq_true hoff)

variable {h : Hindrance} {s : Store} {fs : FileSystem}

theorem workingDirectory_flushUnder (h : Hindrance) (s : Store) (fs : FileSystem) :
    (s.flushUnder h fs).2.workingDirectory = fs.workingDirectory := by
  have ha := s.attempt h fs
  generalize (s.flushUnder h fs).1 = result at ha
  generalize (s.flushUnder h fs).2 = after at ha ⊢
  cases ha with
  | off => rfl
  | tooLarge => rfl
  | failed _ _ hgrown => exact hgrown.workingDirectory
  | written _ _ _ hdirectory => exact hdirectory

/-- A flush of a store that is on succeeds. -/
def SavesUnder (h : Hindrance) (s : Store) (fs : FileSystem) : Prop :=
  s.enabled = true ∧ (s.flushUnder h fs).1 = .ok ()

/-- A flush that succeeds leaves the entries of its store in the place of the
file, and they are within the limit. -/
theorem saved (hsaves : s.SavesUnder h fs) :
    (s.flushUnder h fs).2.contents (goal fs.workingDirectory s.path)
        = some (entriesFile s.entries) ∧
      (entriesFile s.entries).length ≤ s.sizeLimit := by
  obtain ⟨hon, hok⟩ := hsaves
  have ha := s.attempt h fs
  rw [hok] at ha
  generalize (s.flushUnder h fs).2 = after at ha ⊢
  cases ha with
  | off hoff => rw [hon] at hoff; cases hoff
  | written _ hsize hcontents => exact ⟨hcontents, hsize⟩

/-- Any other flush leaves all files as they are. -/
theorem not_saved (hno : ¬ s.SavesUnder h fs) (place : Location) :
    (s.flushUnder h fs).2.contents place = fs.contents place := by
  have ha := s.attempt h fs
  rcases hflush : s.flushUnder h fs with ⟨result, after⟩
  rw [hflush] at ha
  cases ha with
  | off => rfl
  | tooLarge => rfl
  | failed _ _ hgrown => exact hgrown.contents_eq place
  | written hon => exact absurd ⟨hon, congrArg Prod.fst hflush⟩ hno

/-- A flush finds its file too large when the entries of a store that is on are
beyond the limit, and only then. -/
theorem tooLarge_iff :
    (∃ size limit, (s.flushUnder h fs).1 = .error (.tooLarge size limit)) ↔
      s.enabled = true ∧ s.sizeLimit < (entriesFile s.entries).length := by
  have ha := s.attempt h fs
  generalize (s.flushUnder h fs).1 = result at ha ⊢
  generalize (s.flushUnder h fs).2 = after at ha
  cases ha with
  | off hoff =>
      constructor
      · rintro ⟨size, limit, ⟨⟩⟩
      · rintro ⟨hon, -⟩
        rw [hoff] at hon
        cases hon
  | tooLarge hon hsize => exact ⟨fun _ => ⟨hon, hsize⟩, fun _ => ⟨_, _, rfl⟩⟩
  | failed _ hsize =>
      constructor
      · rintro ⟨size, limit, ⟨⟩⟩
      · rintro ⟨-, hlarge⟩
        exact absurd hsize (Nat.not_le.2 hlarge)
  | written _ hsize =>
      constructor
      · rintro ⟨size, limit, ⟨⟩⟩
      · rintro ⟨-, hlarge⟩
        exact absurd hsize (Nat.not_le.2 hlarge)

end Store

-- ======================================================== stores that flush

namespace Shelf

def flushUnder (s : Shelf) (h : Hindrance) (n : Nat) : Except Error Unit × Shelf :=
  let (result, disk) := (s.stores n).flushUnder h s.disk
  (result, { s with disk })

/-- What a request does, apart from deferring, if flushes are hindered. -/
def actUnder (h : Hindrance) (request : Request) (s : Shelf) : Shelf :=
  match request with
  | .deferredFlush n =>
    ((s.setStore n (s.stores n).beginFlush).flushUnder h n).2.reply .nothing
  | .flush n => (s.flushUnder h n).2.reply .nothing
  | .flushNow n =>
    match s.flushUnder h n with
    | (.ok (), s) => s.reply .nothing
    | (.error e, s) => s.reply (.failure e)
  | request => s.act request

def askUnder (h : Hindrance) (request : Request) (s : Shelf) : Shelf × Option (Nat × Request) :=
  match request with
  | .schedule n queue => s.ask (.schedule n queue)
  | request => (s.actUnder h request, none)

/-- Stores whose flushes are hindered. -/
def hostUnder (h : Hindrance) : Turn.Host Request Shelf := ⟨actUnder h, askUnder h⟩

theorem hostUnder_none : hostUnder .none = host := by
  have hact : actUnder .none = act := by
    funext request s
    cases request <;> rfl
  have hask : askUnder .none = ask := by
    funext request s
    unfold askUnder
    rw [hact]
    cases request <;> rfl
  unfold hostUnder host
  rw [hact, hask]

end Shelf

end Cache

end TransformCache
