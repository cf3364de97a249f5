/-
Where the file of a store can be written, and what another flush does to it.

Whether a file can be written does not depend on what is written, apart from
its size: `Writable` says it of a path and a disk, and with it every store of
that path is flushed whose file is not too large (`flush_of_writable`).

A flush that finds what the store holds in the file leaves it there, whether it
succeeds or not (`read_flush_again`). It may have made directories before it
failed, but where a file is read nothing was missing on the way (`Grown.read`).
In either case the file holds the entries afterwards (`read_of_fileable`).
-/
import TransformCache.Proofs.Cache.Hindrance

namespace TransformCache

namespace FileSystem

variable {fs fs' : FileSystem} {p : FilePath}

theorem Grown.entry_of_some (h : Grown fs fs') {l : Location} {e : DiskEntry}
    (hl : fs.entry l = some e) : fs'.entry l = some e := by
  rcases h.entry l with hsame | ⟨hnone, -⟩
  · rw [hsame, hl]
  · rw [hl] at hnone
    cases hnone

/-- What could be reached is still reached. -/
theorem Grown.walk (h : Grown fs fs') (segments : List String) :
    ∀ {here place : Location}, fs.walk here segments = .ok place →
      fs'.walk here segments = .ok place := by
  have hnil : ∀ {l : Location}, (fs.entry l).isSome = true → (fs'.entry l).isSome = true := by
    intro l hl
    obtain ⟨e, he⟩ := Option.isSome_iff_exists.1 hl
    rw [h.entry_of_some he]
    rfl
  induction segments with
  | nil =>
      intro here place hwalk
      unfold FileSystem.walk at hwalk ⊢
      split at hwalk
      next hsome => rw [if_pos (hnil hsome), hwalk]
      next => cases hwalk
  | cons segment rest ih =>
      intro here place hwalk
      rw [walk_cons] at hwalk ⊢
      obtain ⟨next, hstep, hrest⟩ := bind_eq_ok.1 hwalk
      have hsame : fs'.step here segment = fs.step here segment := by
        have hdirectory := entry_of_step hstep
        unfold step
        rw [hdirectory, h.entry_of_some hdirectory]
      rw [hsame, hstep]
      exact ih hrest

theorem Grown.read (h : Grown fs fs') {bytes : Bytes} (hread : fs.read p = .ok bytes) :
    fs'.read p = .ok bytes := by
  obtain ⟨place, time, hfound⟩ := read_eq_ok_iff.1 hread
  obtain ⟨hacceptable, hwalk, hentry⟩ := lookUp_eq_ok_iff.1 hfound
  have hroute : fs'.route p = fs.route p := by
    unfold route
    rw [h.workingDirectory]
  refine read_eq_ok_iff.2 ⟨place, time, lookUp_eq_ok_iff.2 ⟨hacceptable, ?_, ?_⟩⟩
  · rw [hroute]
    exact h.walk _ hwalk
  · exact h.entry_of_some hentry

/-- Where a file can be written, any contents can. -/
theorem write_of_write {bytes : Bytes} (h : fs.write p bytes = .ok fs') (contents : Bytes) :
    ∃ after, fs.write p contents = .ok after := by
  obtain ⟨place, htarget, hplace, -⟩ := write_eq_ok h
  refine ⟨fs.set place (.file contents fs.clock), ?_⟩
  unfold write
  rw [htarget]
  simp only [bind, Except.bind, Bool.false_eq_true, if_false]

end FileSystem

namespace Cache.Store

variable {s : Store} {fs : FileSystem}

/-- The file at a path can be written: an empty store of it can be flushed. -/
def Writable (path : FilePath) (fs : FileSystem) : Prop := ((new path).flush fs).1 = .ok ()

theorem flush_of_writable (h : Writable s.path fs)
    (hsize : (entriesFile s.entries).length ≤ s.sizeLimit) : (s.flush fs).1 = .ok () := by
  cases hon : s.enabled with
  | false => rw [flush_of_disabled hon]
  | true =>
      unfold Writable at h
      have hempty := flushing (new s.path) fs
      rw [h] at hempty
      generalize ((new s.path).flush fs).2 = left at hempty
      cases hempty with
      | off hoff => cases hoff
      | written _ hmade hwrite =>
          have hmade' : s.prepareUnder .none fs = (.ok (), _) := hmade
          obtain ⟨after, hafter⟩ := FileSystem.write_of_write hwrite (entriesFile s.entries)
          have hafter' : Hindrance.write .none _ s.path (entriesFile s.entries) = .ok after := hafter
          rw [← flushUnder_none, flushUnder, if_pos hon]
          simp only [if_neg (Nat.not_lt.2 hsize), hmade', hafter']

/-- Writing what is there changes nothing of what is read. -/
theorem read_flush_again (h : fs.read s.path = .ok (entriesFile s.entries)) :
    (s.flush fs).2.read s.path = .ok (entriesFile s.entries) := by
  have hattempt := attempt .none s fs
  rw [flushUnder_none] at hattempt
  rcases hflush : s.flush fs with ⟨result, after⟩
  rw [hflush] at hattempt
  cases hattempt with
  | off => exact h
  | tooLarge => exact h
  | failed _ _ hgrown => exact hgrown.read h
  | written hon => exact read_of_flush hon hflush

/-- The file at a path holds entries, or can be made to. -/
def Fileable (path : FilePath) (entries : Keyed Entry) (limit : Nat) (fs : FileSystem) : Prop :=
  fs.read path = .ok (entriesFile entries) ∨
    Writable path fs ∧ (entriesFile entries).length ≤ limit

/-- After a flush the file holds the entries of the store. -/
theorem read_of_fileable (hon : s.enabled = true)
    (h : Fileable s.path s.entries s.sizeLimit fs) :
    (s.flush fs).2.read s.path = .ok (entriesFile s.entries) := by
  rcases h with hread | ⟨hwritable, hsize⟩
  · exact read_flush_again hread
  · exact read_of_flush hon (Prod.ext (flush_of_writable hwritable hsize) rfl)

end Cache.Store

end TransformCache
