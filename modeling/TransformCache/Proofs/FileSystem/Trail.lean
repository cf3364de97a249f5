/-
What an operation on the disk looks at, and what it can change.

# Ways

The segments of a path lead from place to place, whether anything is there or
not: `way` lists these places and `goal` is the last of them. A look-up goes
this way until something stops it (`walk_eq_foldl`), so it never looks at any
other place.

# Two disks that agree

On disks that agree on all places of a path's way, every operation on the path
does the same, and leaves disks that agree wherever they did before
(`Agree.lookUp_eq`, `Agree.makeAncestors`, `Agree.edit`). What lies elsewhere may
differ as much as it likes.

# What is changed

Making directories and writing a file puts something on the way of their path,
where there was no directory (`Filling`). Taking something away also takes what
lies below it.
-/
import TransformCache.Proofs.FileSystem

namespace TransformCache.FileSystem

variable {fs fs' : FileSystem} {p : FilePath} {here home : Location}

-- ================================================================== ways

/-- The place that a segment leads to from a directory. -/
def move (here : Location) (segment : String) : Location :=
  if segment = "" ∨ segment = "." then here
  else if segment = ".." then here.dropLast
  else here ++ [segment]

/-- The places that segments lead to, one after the other. -/
def trail (here : Location) : List String → List Location
  | [] => [here]
  | s :: rest => here :: trail (move here s) rest

/-- Where the way of a path begins, if relative ones begin at `home`. -/
def origin (home : Location) (p : FilePath) : Location := if p.isAbsolute then [] else home

/-- The places on the way of a path. -/
def way (home : Location) (p : FilePath) : List Location := trail (origin home p) p.steps

/-- The place that the way of a path ends at. -/
def goal (home : Location) (p : FilePath) : Location := p.steps.foldl move (origin home p)

theorem route_eq_origin (fs : FileSystem) (p : FilePath) :
    fs.route p = (origin fs.workingDirectory p, p.steps) := route_eq fs p

theorem mem_trail_self (here : Location) (segments : List String) : here ∈ trail here segments := by
  cases segments with
  | nil => exact List.mem_singleton_self here
  | cons s rest => exact List.mem_cons_self

/-- A trail over joined segments is one trail after the other. -/
theorem mem_trail_append {l : Location} (a b : List String) :
    ∀ here, l ∈ trail here (a ++ b) ↔ l ∈ trail here a ∨ l ∈ trail (a.foldl move here) b := by
  induction a with
  | nil =>
      intro here
      constructor
      · exact .inr
      · rintro (hl | hl)
        · rw [List.mem_singleton.1 hl]
          exact mem_trail_self here b
        · exact hl
  | cons s rest ih =>
      intro here
      rw [List.cons_append, trail, trail, List.mem_cons, List.mem_cons, ih, List.foldl_cons,
        or_assoc]

theorem foldl_mem_trail (here : Location) (segments : List String) :
    segments.foldl move here ∈ trail here segments := by
  have h := (mem_trail_append (l := segments.foldl move here) segments [] here).2
    (.inr (mem_trail_self _ []))
  rwa [List.append_nil] at h

/-- A parent's way is the first part of the path's. -/
theorem way_parent {q : FilePath} (h : p.parent? = some q) (hne : q.text ≠ "") {l : Location}
    (hl : l ∈ way home q) : l ∈ way home p := by
  obtain ⟨before, after, hsteps, -, hparent⟩ := FilePath.steps_parent h hne
  have horigin : origin home q = origin home p := by
    unfold origin
    rw [FilePath.isAbsolute_parent h hne]
  unfold way at hl ⊢
  rw [horigin] at hl
  rw [hsteps, mem_trail_append]
  rcases hparent with heq | ⟨rfl, heq, -⟩
  · exact .inl (heq ▸ hl)
  · -- the root, once more
    left
    rw [heq] at hl
    simpa [trail, move] using hl

-- ============================================================ going the way

theorem step_eq_move {next : Location} {segment : String}
    (h : fs.step here segment = .ok next) : next = move here segment := by
  unfold step at h
  rw [entry_of_step (show fs.step here segment = .ok next from h)] at h
  unfold move
  simp only at h
  split at h
  next hidle =>
    rw [if_pos hidle]
    exact (Except.ok.inj h).symm
  next hidle =>
    rw [if_neg hidle]
    split at h
    next hup =>
      rw [if_pos hup]
      exact (Except.ok.inj h).symm
    next hup =>
      rw [if_neg hup]
      split at h
      · cases h
      · exact (Except.ok.inj h).symm

/-- A walk ends where its segments lead. -/
theorem walk_eq_foldl {place : Location} (segments : List String) :
    ∀ {here}, fs.walk here segments = .ok place → place = segments.foldl move here := by
  induction segments with
  | nil => intro here h; exact (eq_of_walk_nil h).symm
  | cons s rest ih =>
      intro here h
      rw [walk_cons] at h
      obtain ⟨next, hs, hrest⟩ := bind_eq_ok.1 h
      rw [ih hrest, step_eq_move hs]
      rfl

/-- What is found at a path is found at its goal. -/
theorem place_of_lookUp {place : Location} {e : DiskEntry} (h : fs.lookUp p = .ok (place, e)) :
    place = goal fs.workingDirectory p := by
  obtain ⟨-, hw, -⟩ := lookUp_eq_ok_iff.1 h
  rw [route_eq_origin] at hw
  exact walk_eq_foldl _ hw

/-- The steps of a path without the slashes at its end. -/
def named (p : FilePath) : List String := (p.steps.reverse.dropWhile (· = "")).reverse

theorem steps_eq_named (p : FilePath) :
    ∃ slashes, p.steps = named p ++ slashes ∧ ∀ s ∈ slashes, s = "" := by
  refine ⟨(p.steps.reverse.takeWhile (· = "")).reverse, ?_, fun s hs => ?_⟩
  · rw [named, ← List.reverse_append, List.takeWhile_append_dropWhile, List.reverse_reverse]
  · have hmem := List.mem_takeWhile_imp (List.mem_reverse.1 hs)
    exact of_decide_eq_true hmem

theorem foldl_move_slashes {slashes : List String} (h : ∀ s ∈ slashes, s = "") (here : Location) :
    slashes.foldl move here = here := by
  induction slashes with
  | nil => rfl
  | cons s rest ih =>
      rw [List.foldl_cons, h s List.mem_cons_self]
      exact ih fun s hs => h s (List.mem_cons_of_mem _ hs)

/-- A target by its parts: the walk to a directory, and a last step. -/
theorem target_eq (fs : FileSystem) (p : FilePath) :
    fs.target p = (acceptable p >>= fun _ =>
      if named p = [] then .ok .standing
      else
        fs.walk (origin fs.workingDirectory p) (named p).dropLast >>= fun directory =>
          fs.step directory ((named p).getLast?.getD "") >>= fun place =>
            if (named p).getLast?.getD "" = "." ∨ (named p).getLast?.getD "" = ".." then
              .ok .standing
            else .ok (.name place (p.steps.getLast? = some ""))) := by
  unfold target
  rw [route_eq_origin]
  cases acceptable p with
  | error e => rfl
  | ok u =>
      simp only [bind, Except.bind, named]
      split
      next hnil => exact (if_pos hnil).symm
      next hne => exact (if_neg hne).symm

/-- The directory that a path's last segment is looked for in is on the way, and
from there the last segment leads to the goal. -/
theorem named_on_way (home : Location) (h : named p ≠ []) :
    (∀ l ∈ trail (origin home p) (named p).dropLast, l ∈ way home p) ∧
      move ((named p).dropLast.foldl move (origin home p)) ((named p).getLast?.getD "")
        = goal home p := by
  obtain ⟨slashes, hsteps, hslashes⟩ := steps_eq_named p
  have hlast : (named p).dropLast ++ [(named p).getLast?.getD ""] = named p := by
    rw [List.getLast?_eq_some_getLast h]
    exact List.dropLast_concat_getLast h
  rw [← hlast] at hsteps
  refine ⟨fun l hl => ?_, ?_⟩
  · unfold way
    rw [hsteps, List.append_assoc]
    exact (mem_trail_append _ _ _).2 (.inl hl)
  · unfold goal
    rw [hsteps, List.foldl_append, foldl_move_slashes hslashes, List.foldl_append]
    rfl

/-- A path is made at its goal. -/
theorem place_of_target {place : Location} {slash : Bool}
    (h : fs.target p = .ok (.name place slash)) : place = goal fs.workingDirectory p := by
  rw [target_eq] at h
  obtain ⟨u, -, h⟩ := bind_eq_ok.1 h
  split at h
  · cases h
  next hnamed =>
    obtain ⟨directory, hw, h⟩ := bind_eq_ok.1 h
    obtain ⟨place', hs, h⟩ := bind_eq_ok.1 h
    split at h
    · cases h
    · cases h
      rw [step_eq_move hs, walk_eq_foldl _ hw]
      exact (named_on_way _ hnamed).2

theorem goal_mem_way (home : Location) (p : FilePath) : goal home p ∈ way home p :=
  foldl_mem_trail _ _

-- ======================================================= what is filled in

/-- Between two disks only places on a way have changed where no directory was. -/
structure Filling (places : List Location) (fs fs' : FileSystem) : Prop where
  entry : ∀ l, fs'.entry l = fs.entry l ∨ l ∈ places ∧ fs.entry l ≠ some .directory
  workingDirectory : fs'.workingDirectory = fs.workingDirectory
  clock : fs'.clock = fs.clock

variable {places : List Location}

theorem Filling.refl (places : List Location) (fs : FileSystem) : Filling places fs fs :=
  ⟨fun _ => .inl rfl, rfl, rfl⟩

theorem Filling.trans {fs'' : FileSystem} (h : Filling places fs fs')
    (h' : Filling places fs' fs'') : Filling places fs fs'' where
  entry l := by
    rcases h'.entry l with hsame | ⟨hmem, hno⟩
    · rw [hsame]
      exact h.entry l
    · rcases h.entry l with hsame | hchanged
      · exact .inr ⟨hmem, hsame ▸ hno⟩
      · exact .inr hchanged
  workingDirectory := h'.workingDirectory.trans h.workingDirectory
  clock := h'.clock.trans h.clock

theorem Filling.mono {more : List Location} (h : Filling places fs fs')
    (hmore : ∀ l ∈ places, l ∈ more) : Filling more fs fs' where
  entry l := (h.entry l).imp_right fun hl => ⟨hmore l hl.1, hl.2⟩
  workingDirectory := h.workingDirectory
  clock := h.clock

/-- Directories stay. -/
theorem Filling.directory (h : Filling places fs fs') {l : Location}
    (hl : fs.entry l = some .directory) : fs'.entry l = some .directory := by
  rcases h.entry l with hsame | ⟨-, hno⟩
  · rw [hsame, hl]
  · exact absurd hl hno

theorem filling_set {place : Location} (e : DiskEntry) (hplace : place ∈ places)
    (hno : fs.entry place ≠ some .directory) : Filling places fs (fs.set place e) where
  entry l := by
    rw [entry_set]
    by_cases hl : l = place
    · exact .inr ⟨hl ▸ hplace, hl ▸ hno⟩
    · exact .inl (if_neg hl)
  workingDirectory := rfl
  clock := rfl

theorem filling_makeDirectory (h : fs.makeDirectory p = .ok fs') :
    Filling (way fs.workingDirectory p) fs fs' := by
  unfold makeDirectory at h
  obtain ⟨t, htarget, h⟩ := bind_eq_ok.1 h
  cases t with
  | standing => cases h
  | name place slash =>
      simp only at h
      split at h
      · cases h
      next hvacant =>
        cases h
        refine filling_set .directory ?_ fun hd => hvacant (by rw [hd]; rfl)
        rw [place_of_target htarget]
        exact goal_mem_way ..

/-- A chain of directories fills in the way of its first if those above do. -/
theorem filling_makeChain_cons {above : List FilePath}
    (habove : Filling (way fs.workingDirectory p) fs (fs.makeChain above).2) :
    Filling (way fs.workingDirectory p) fs (fs.makeChain (p :: above)).2 := by
  unfold makeChain
  split
  · exact .refl _ _
  · split
    next made hmade => exact filling_makeDirectory hmade
    next =>
      split
      next e fs₁ hstopped =>
        rw [hstopped] at habove
        exact habove
      next fs₁ hmade =>
        rw [hmade] at habove
        split
        next made hlast =>
          have hfilled := filling_makeDirectory hlast
          rw [habove.workingDirectory] at hfilled
          exact habove.trans hfilled
        next => exact habove
    next => exact .refl _ _

/-- Nothing is made where the path is empty. -/
theorem makeChain_of_empty (h : p.text = "") (limit : Nat) :
    (fs.makeChain (ancestors limit p)).2 = fs := by
  cases limit with
  | zero => rfl
  | succ limit =>
      unfold ancestors makeChain
      rw [if_pos h]

/-- Making a directory with all that it lies in fills in its way. -/
theorem filling_makeAncestors (limit : Nat) :
    ∀ p : FilePath,
      Filling (way fs.workingDirectory p) fs (fs.makeChain (ancestors limit p)).2 := by
  induction limit with
  | zero => exact fun p => .refl _ _
  | succ limit ih =>
      intro p
      unfold ancestors
      refine filling_makeChain_cons ?_
      cases hparent : p.parent? with
      | none => exact .refl _ _
      | some parent =>
          by_cases hempty : parent.text = ""
          · simp only [makeChain_of_empty hempty]
            exact .refl _ _
          · exact (ih parent).mono fun l => way_parent hparent hempty

theorem filling_write {contents : Bytes} (h : fs.write p contents = .ok fs') :
    Filling (way fs.workingDirectory p) fs fs' := by
  obtain ⟨place, htarget, hplace, rfl⟩ := write_eq_ok h
  refine filling_set _ ?_ hplace
  rw [place_of_target htarget]
  exact goal_mem_way ..

-- ==================================================== two disks that agree

/-- Two disks with the same things in some places. -/
structure Agree (S : Location → Prop) (fs fs' : FileSystem) : Prop where
  entry : ∀ l, S l → fs.entry l = fs'.entry l
  workingDirectory : fs.workingDirectory = fs'.workingDirectory
  clock : fs.clock = fs'.clock

variable {S : Location → Prop}

theorem Agree.refl (S : Location → Prop) (fs : FileSystem) : Agree S fs fs :=
  ⟨fun _ _ => rfl, rfl, rfl⟩

theorem Agree.symm (h : Agree S fs fs') : Agree S fs' fs where
  entry l hl := (h.entry l hl).symm
  workingDirectory := h.workingDirectory.symm
  clock := h.clock.symm

theorem Agree.trans {fs'' : FileSystem} (h : Agree S fs fs') (h' : Agree S fs' fs'') :
    Agree S fs fs'' where
  entry l hl := (h.entry l hl).trans (h'.entry l hl)
  workingDirectory := h.workingDirectory.trans h'.workingDirectory
  clock := h.clock.trans h'.clock

theorem Agree.step_eq (h : Agree S fs fs') (hhere : S here) (segment : String) :
    fs.step here segment = fs'.step here segment := by
  unfold step
  rw [h.entry here hhere]

theorem Agree.walk_eq (h : Agree S fs fs') (segments : List String) :
    ∀ {here}, (∀ l ∈ trail here segments, S l) →
      fs.walk here segments = fs'.walk here segments := by
  induction segments with
  | nil =>
      intro here hS
      unfold walk
      rw [h.entry here (hS here (mem_trail_self here []))]
  | cons s rest ih =>
      intro here hS
      rw [walk_cons, walk_cons, h.step_eq (hS here List.mem_cons_self)]
      cases hs : fs'.step here s with
      | error e => rfl
      | ok next =>
          rw [step_eq_move hs]
          exact ih fun l hl => hS l (List.mem_cons_of_mem _ hl)

theorem Agree.lookUp_eq (h : Agree S fs fs') (hway : ∀ l ∈ way fs.workingDirectory p, S l) :
    fs.lookUp p = fs'.lookUp p := by
  unfold lookUp
  rw [route_eq_origin, route_eq_origin, ← h.workingDirectory]
  cases acceptable p with
  | error e => rfl
  | ok u =>
      simp only [bind, Except.bind]
      rw [h.walk_eq p.steps hway]
      cases hw : fs'.walk (origin fs.workingDirectory p) p.steps with
      | error e => rfl
      | ok place =>
          have hplace : place ∈ way fs.workingDirectory p := by
            rw [walk_eq_foldl _ hw]
            exact goal_mem_way ..
          simp only
          rw [h.entry place (hway place hplace)]

theorem Agree.isDirectory_eq (h : Agree S fs fs')
    (hway : ∀ l ∈ way fs.workingDirectory p, S l) : fs.isDirectory p = fs'.isDirectory p := by
  unfold isDirectory
  rw [h.lookUp_eq hway]

theorem Agree.target_eq (h : Agree S fs fs') (hway : ∀ l ∈ way fs.workingDirectory p, S l) :
    fs.target p = fs'.target p := by
  rw [FileSystem.target_eq, FileSystem.target_eq, ← h.workingDirectory]
  cases acceptable p with
  | error e => rfl
  | ok u =>
      simp only [bind, Except.bind]
      split
      · rfl
      next hnamed =>
        obtain ⟨hon, -⟩ := named_on_way fs.workingDirectory hnamed
        rw [h.walk_eq _ fun l hl => hway l (hon l hl)]
        cases hw : fs'.walk (origin fs.workingDirectory p) (named p).dropLast with
        | error e => rfl
        | ok directory =>
            have hmem : S directory := by
              rw [walk_eq_foldl _ hw]
              exact hway _ (hon _ (foldl_mem_trail _ _))
            simp only
            rw [h.step_eq hmem]

/-- The same thing put in one place. -/
theorem Agree.set (h : Agree S fs fs') (place : Location) (e : DiskEntry) :
    Agree S (fs.set place e) (fs'.set place e) where
  entry l hl := by
    rw [entry_set, entry_set, h.entry l hl]
  workingDirectory := h.workingDirectory
  clock := h.clock

theorem Agree.clear (h : Agree S fs fs') (place : Location) :
    Agree S (fs.clear place) (fs'.clear place) where
  entry l hl := by
    show (if place.isPrefixOf l then none else fs.entry l)
      = if place.isPrefixOf l then none else fs'.entry l
    rw [h.entry l hl]
  workingDirectory := h.workingDirectory
  clock := h.clock

/-- Two attempts to change disks: both fail alike, or leave disks that agree. -/
inductive Agreed (S : Location → Prop) :
    Except FileError FileSystem → Except FileError FileSystem → Prop
  | error (e : FileError) : Agreed S (.error e) (.error e)
  | ok {fs fs' : FileSystem} (h : Agree S fs fs') : Agreed S (.ok fs) (.ok fs')

theorem Agree.makeDirectory (h : Agree S fs fs')
    (hway : ∀ l ∈ way fs.workingDirectory p, S l) :
    Agreed S (fs.makeDirectory p) (fs'.makeDirectory p) := by
  unfold FileSystem.makeDirectory
  rw [← h.target_eq hway]
  cases htarget : fs.target p with
  | error e => exact .error e
  | ok t =>
      simp only [bind, Except.bind]
      cases t with
      | standing => exact .error _
      | name place slash =>
          have hplace : S place := place_of_target htarget ▸ hway _ (goal_mem_way ..)
          simp only
          rw [← h.entry place hplace]
          split
          · exact .error _
          · exact .ok (h.set place .directory)

/-- A chain of directories comes to the same if those above its first do. -/
theorem Agree.makeChain_cons (h : Agree S fs fs') {above : List FilePath}
    (hway : p.text ≠ "" → ∀ l ∈ way fs.workingDirectory p, S l)
    (habove : (fs.makeChain above).1 = (fs'.makeChain above).1 ∧
      Agree S (fs.makeChain above).2 (fs'.makeChain above).2)
    (hhome : (fs.makeChain above).2.workingDirectory = fs.workingDirectory) :
    (fs.makeChain (p :: above)).1 = (fs'.makeChain (p :: above)).1 ∧
      Agree S (fs.makeChain (p :: above)).2 (fs'.makeChain (p :: above)).2 := by
  unfold makeChain
  by_cases hempty : p.text = ""
  · rw [if_pos hempty, if_pos hempty]
    exact ⟨rfl, h⟩
  · rw [if_neg hempty, if_neg hempty]
    have hp := hway hempty
    have hmade := h.makeDirectory hp
    generalize fs.makeDirectory p = made at hmade ⊢
    generalize fs'.makeDirectory p = made' at hmade ⊢
    cases hmade with
    | ok h => exact ⟨rfl, h⟩
    | error e =>
        cases e with
        | notFound =>
            simp only
            rcases hchain : fs.makeChain above with ⟨result, d⟩
            rcases hchain' : fs'.makeChain above with ⟨result', d'⟩
            rw [hchain, hchain'] at habove
            rw [hchain] at hhome
            obtain ⟨rfl, hdisks⟩ : result = result' ∧ Agree S d d' := habove
            cases result with
            | error e => exact ⟨rfl, hdisks⟩
            | ok u =>
                -- the last step once more, on what there is now
                have hlast := hdisks.makeDirectory (hhome ▸ hp)
                have hstands := hdisks.isDirectory_eq (hhome ▸ hp)
                simp only
                generalize d.makeDirectory p = made at hlast ⊢
                generalize d'.makeDirectory p = made' at hlast ⊢
                cases hlast with
                | ok hlast => exact ⟨rfl, hlast⟩
                | error e => exact ⟨by simp only [hstands], hdisks⟩
        | _ => exact ⟨by simp only [h.isDirectory_eq hp], h⟩

/-- Making a directory with all that it lies in comes to the same, and leaves
disks that agree. -/
theorem Agree.makeAncestors (h : Agree S fs fs') (limit : Nat) :
    ∀ p : FilePath, (p.text ≠ "" → ∀ l ∈ way fs.workingDirectory p, S l) →
      (fs.makeChain (ancestors limit p)).1 = (fs'.makeChain (ancestors limit p)).1 ∧
        Agree S (fs.makeChain (ancestors limit p)).2 (fs'.makeChain (ancestors limit p)).2 := by
  induction limit with
  | zero => exact fun p _ => ⟨rfl, h⟩
  | succ limit ih =>
      intro p hway
      unfold ancestors
      cases hparent : p.parent? with
      | none => exact h.makeChain_cons hway ⟨rfl, h⟩ rfl
      | some parent =>
          by_cases hempty : p.text = ""
          · -- then nothing is done
            unfold makeChain
            rw [if_pos hempty, if_pos hempty]
            exact ⟨rfl, h⟩
          · exact h.makeChain_cons hway
              (ih parent fun hne l hl => hway hempty l (way_parent hparent hne hl))
              (filling_makeAncestors limit parent).workingDirectory

-- ========================================================= edits from outside

/-- The path that a change from outside is made at. -/
def Edit.path : Edit → FilePath
  | .put path _ _ => path
  | .makeDirectories path => path
  | .touch path _ => path
  | .remove path => path

/-- The disk with all directories that a path lies in, as far as they can be
made. -/
def prepared (fs : FileSystem) (p : FilePath) : FileSystem :=
  match p.parent? with
  | some parent => (fs.makeDirectories parent).2
  | none => fs

/-- The disk with something where a path is made. -/
def settle (fs : FileSystem) (p : FilePath) (e : DiskEntry) : FileSystem :=
  match fs.target p with
  | .ok (.name place _) => fs.set place e
  | _ => fs

theorem put_eq (fs : FileSystem) (p : FilePath) (contents : Bytes) (time : Int) :
    fs.put p contents time = (fs.prepared p).settle p (.file contents time) := rfl

theorem filling_prepared (fs : FileSystem) (p : FilePath) :
    ∃ places, Filling places fs (fs.prepared p) := by
  unfold prepared
  cases p.parent? with
  | none => exact ⟨[], .refl _ _⟩
  | some parent => exact ⟨_, filling_makeAncestors _ parent⟩

theorem Agree.prepared (h : Agree S fs fs') (hway : ∀ l ∈ way fs.workingDirectory p, S l) :
    Agree S (fs.prepared p) (fs'.prepared p) := by
  unfold FileSystem.prepared
  cases hparent : p.parent? with
  | none => exact h
  | some parent =>
      exact (h.makeAncestors _ parent fun hne l hl => hway l (way_parent hparent hne hl)).2

theorem Agree.settle (h : Agree S fs fs') (hway : ∀ l ∈ way fs.workingDirectory p, S l)
    (e : DiskEntry) : Agree S (fs.settle p e) (fs'.settle p e) := by
  unfold FileSystem.settle
  rw [← h.target_eq hway]
  split
  · exact h.set _ _
  · exact h

/-- A change made to both of two disks that agree on the way of its path. -/
theorem Agree.edit (h : Agree S fs fs') (c : Edit)
    (hway : ∀ l ∈ way fs.workingDirectory c.path, S l) : Agree S (fs.edit c) (fs'.edit c) := by
  cases c with
  | makeDirectories path => exact (h.makeAncestors _ path fun _ => hway).2
  | put path contents time =>
      obtain ⟨places, hfilled⟩ := filling_prepared fs path
      unfold FileSystem.edit
      simp only [put_eq]
      exact (h.prepared hway).settle (hfilled.workingDirectory ▸ hway) _
  | touch path time =>
      have hfound : fs.lookUp path = fs'.lookUp path := h.lookUp_eq hway
      unfold FileSystem.edit touch
      simp only
      rw [← hfound]
      split
      · exact h.set _ _
      · exact h
  | remove path =>
      have hfound : fs.lookUp path = fs'.lookUp path := h.lookUp_eq hway
      unfold FileSystem.edit remove
      simp only
      rw [← hfound]
      split
      · exact h.clear _
      · exact h

theorem workingDirectory_settle (fs : FileSystem) (p : FilePath) (e : DiskEntry) :
    (fs.settle p e).workingDirectory = fs.workingDirectory := by
  unfold settle
  split
  · rfl
  · rfl

/-- Changes from outside are none of the directory that relative paths begin
at. -/
theorem workingDirectory_edit (fs : FileSystem) (c : Edit) :
    (fs.edit c).workingDirectory = fs.workingDirectory := by
  cases c with
  | makeDirectories path => exact (filling_makeAncestors _ path).workingDirectory
  | put path contents time =>
      obtain ⟨places, hfilled⟩ := filling_prepared fs path
      exact (workingDirectory_settle ..).trans hfilled.workingDirectory
  | touch path time =>
      unfold edit touch
      simp only
      split
      · rfl
      · rfl
  | remove path =>
      unfold edit remove
      simp only
      split
      · rfl
      · rfl

/-- A change from outside leaves directories alone that are neither at its goal
nor below it. -/
theorem directory_edit {l : Location} (c : Edit)
    (hgoal : ¬ goal fs.workingDirectory c.path <+: l)
    (hl : fs.entry l = some .directory) : (fs.edit c).entry l = some .directory := by
  have hne : l ≠ goal fs.workingDirectory c.path := fun heq => hgoal (heq ▸ List.prefix_refl _)
  cases c with
  | makeDirectories path => exact (filling_makeAncestors _ path).directory hl
  | put path contents time =>
      obtain ⟨places, hfilled⟩ := filling_prepared fs path
      show ((fs.prepared path).settle path (.file contents time)).entry l = _
      unfold settle
      split
      next place slash htarget =>
        have hplace := place_of_target htarget
        rw [hfilled.workingDirectory] at hplace
        rw [entry_set, if_neg (hplace ▸ hne)]
        exact hfilled.directory hl
      next => exact hfilled.directory hl
  | touch path time =>
      show (fs.touch path time).entry l = _
      unfold touch
      split
      next place contents time' hfound =>
        rw [entry_set, if_neg (place_of_lookUp hfound ▸ hne)]
        exact hl
      next => exact hl
  | remove path =>
      show (fs.remove path).entry l = _
      unfold remove
      split
      next place e hfound =>
        have hoff : ¬ place.isPrefixOf l = true := by
          rw [List.isPrefixOf_iff_prefix, place_of_lookUp hfound]
          exact hgoal
        show (if place.isPrefixOf l then none else fs.entry l) = _
        rw [if_neg hoff]
        exact hl
      next => exact hl

end TransformCache.FileSystem
