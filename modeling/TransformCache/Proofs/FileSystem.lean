/-
What is written to a file is what is read from it, and writing fails only
where there is no file to read.

# Walking

Looking up a path is a walk from directory to directory, and a walk over
joined segments is one walk after the other (`walk_append`). A walk that ends
at a directory only ever meets directories, so putting something in a place
that is no directory leaves every such walk as it was
(`walk_set_of_directory`).

# Disks as trees

On a disk that is a `Tree` everything lies in a directory. Real disks are
trees; the type alone does not say so, and what goes wrong without it is that
a step upwards may lead to a file. Every operation of this library keeps it.
-/
import TransformCache.FileSystem
import TransformCache.Proofs.FilePath
import TransformCache.Proofs.Result

namespace TransformCache.FileSystem

variable {fs : FileSystem} {p : FilePath}

-- ====================================================== steps and walks

/-- A step is taken from directories alone. -/
theorem entry_of_step {here next : Location} {segment : String}
    (h : fs.step here segment = .ok next) : fs.entry here = some .directory := by
  unfold step at h
  split at h
  · cases h
  · cases h
  · assumption

/-- From nothing no walk leads anywhere. -/
theorem walk_of_vacant {here : Location} (h : fs.entry here = none)
    (segments : List String) : fs.walk here segments = .error .notFound := by
  cases segments with
  | nil => simp [walk, h]
  | cons s rest => simp [walk, step, h]

theorem eq_of_walk_nil {here place : Location} (h : fs.walk here [] = .ok place) :
    here = place := by
  unfold walk at h
  by_cases hs : (fs.entry here).isSome = true
  · rw [if_pos hs] at h
    exact Except.ok.inj h
  · rw [if_neg hs] at h
    cases h

/-- A walk is a step and the walk from there. -/
theorem walk_cons (here : Location) (s : String) (rest : List String) :
    fs.walk here (s :: rest) = fs.step here s >>= fun next => fs.walk next rest := by
  rw [walk]
  cases fs.step here s with
  | error e => rfl
  | ok next =>
      show (if (fs.entry next).isSome then fs.walk next rest else .error .notFound)
        = fs.walk next rest
      cases hn : fs.entry next with
      | none => rw [walk_of_vacant hn]; rfl
      | some e => rfl

theorem walk_append (here : Location) (a b : List String) :
    fs.walk here (a ++ b) = fs.walk here a >>= fun next => fs.walk next b := by
  induction a generalizing here with
  | nil =>
      cases hh : fs.entry here with
      | none =>
          rw [walk_of_vacant hh, walk_of_vacant hh]
          rfl
      | some e => simp [walk, hh, bind, Except.bind]
  | cons s rest ih =>
      rw [List.cons_append, walk_cons, walk_cons]
      cases fs.step here s with
      | error e => rfl
      | ok next => exact ih next

/-- A walk that ends in a step, taken apart at the step. -/
theorem walk_snoc {here place : Location} {init : List String} {last : String}
    (h : fs.walk here (init ++ [last]) = .ok place) :
    ∃ directory, fs.walk here init = .ok directory
      ∧ fs.step directory last = .ok place := by
  rw [walk_append] at h
  obtain ⟨directory, hd, hw⟩ := bind_eq_ok.1 h
  rw [walk_cons] at hw
  obtain ⟨next, hs, hnil⟩ := bind_eq_ok.1 hw
  obtain rfl := eq_of_walk_nil hnil
  exact ⟨directory, hd, hs⟩

/-- A name leads from a directory to the place of that name in it. -/
theorem step_name {directory place : Location} {name : String}
    (h : fs.step directory name = .ok place) (hempty : name ≠ "") (hdot : name ≠ ".")
    (hup : name ≠ "..") : place = directory ++ [name] := by
  unfold step at h
  rw [entry_of_step h] at h
  simp only [hempty, hdot, hup, or_self, if_false] at h
  split at h
  · cases h
  · cases h
    rfl

-- ====================================================== putting things in place

theorem entry_set (place : Location) (e : DiskEntry) (l : Location) :
    (fs.set place e).entry l = if l = place then some e else fs.entry l := rfl

/-- Steps do not see what is put in a place that is no directory. -/
theorem step_set {place here next : Location} {e : DiskEntry} {segment : String}
    (hplace : fs.entry place ≠ some .directory)
    (h : fs.step here segment = .ok next) :
    (fs.set place e).step here segment = .ok next := by
  have hhere := entry_of_step h
  have hne : here ≠ place := fun heq => hplace (heq ▸ hhere)
  have hsame : (fs.set place e).entry here = some .directory := by
    rw [entry_set, if_neg hne, hhere]
  unfold step at h ⊢
  rw [hhere] at h
  rw [hsame]
  exact h

/-- A walk to a directory does not see it either. -/
theorem walk_set_of_directory {place directory : Location} {e : DiskEntry}
    (hplace : fs.entry place ≠ some .directory)
    (hd : fs.entry directory = some .directory) :
    ∀ (segments : List String) (here : Location),
      fs.walk here segments = .ok directory →
      (fs.set place e).walk here segments = .ok directory := by
  intro segments
  induction segments with
  | nil =>
      intro here h
      obtain rfl := eq_of_walk_nil h
      have hne : here ≠ place := fun heq => hplace (heq ▸ hd)
      simp [walk, entry_set, hne, hd]
  | cons s rest ih =>
      intro here h
      rw [walk_cons] at h ⊢
      obtain ⟨next, hs, hrest⟩ := bind_eq_ok.1 h
      exact bind_eq_ok.2 ⟨next, step_set hplace hs, ih next hrest⟩

-- ====================================================== targets

/-- Dropping blanks from the end of a list that does not end in one. -/
private theorem dropWhile_reverse {segments : List String} {last : String}
    (h : segments.getLast? = some last) (hne : last ≠ "") :
    (segments.reverse.dropWhile (· = "")).reverse = segments := by
  obtain ⟨init, rfl⟩ := List.getLast?_eq_some_iff.1 h
  simp [hne]

/-- The target of a path that ends in a segment: the walk to the directory, and
a step from there. -/
theorem target_of_snoc {init : List String} {last : String}
    (ha : acceptable p = .ok ()) (hr : (fs.route p).2 = init ++ [last])
    (hne : last ≠ "") :
    fs.target p = (fs.walk (fs.route p).1 init >>= fun directory =>
      fs.step directory last >>= fun place =>
        if last = "." ∨ last = ".." then .ok .standing else .ok (.name place false)) := by
  have hlast : (init ++ [last]).getLast? = some last := by simp
  have hnamed := dropWhile_reverse hlast hne
  have hslash : ¬ some last = some "" := fun h => hne (Option.some.inj h)
  unfold target
  simp only [ha, hr, hnamed, hlast, bind, Except.bind]
  split
  · next hnil => simp at hnil
  · simp [hslash]

/-- A path to be made is acceptable, and does not end in a slash. -/
theorem target_name {place : Location} (h : fs.target p = .ok (.name place false)) :
    ∃ init last directory, acceptable p = .ok () ∧
      (fs.route p).2 = init ++ [last] ∧
      fs.walk (fs.route p).1 init = .ok directory ∧
      fs.step directory last = .ok place ∧ place = directory ++ [last] := by
  have ha : acceptable p = .ok () := by
    unfold target at h
    obtain ⟨u, ha, -⟩ := bind_eq_ok.1 h
    exact ha
  rcases List.eq_nil_or_concat (fs.route p).2 with hr | ⟨init, last, hr⟩
  · unfold target at h
    simp [ha, hr, bind, Except.bind] at h
  rw [List.concat_eq_append] at hr
  by_cases hne : last = ""
  · -- a slash at the end would be part of the target
    exfalso
    subst hne
    unfold target at h
    simp only [ha, hr, bind, Except.bind] at h
    split at h
    · cases h
    · split at h
      · cases h
      · split at h
        · cases h
        · split at h
          · cases h
          · simp at h
  rw [target_of_snoc ha hr hne] at h
  obtain ⟨directory, hd, h⟩ := bind_eq_ok.1 h
  obtain ⟨place', hs, h⟩ := bind_eq_ok.1 h
  split at h
  · cases h
  next hdots =>
    cases h
    refine ⟨init, last, directory, ha, hr, hd, hs, step_name hs hne ?_ ?_⟩
    · exact fun hdot => hdots (.inl hdot)
    · exact fun hup => hdots (.inr hup)

-- ====================================================== looking up

/-- What is found at a path: the place its walk leads to. -/
theorem lookUp_eq_ok_iff {place : Location} {e : DiskEntry} :
    fs.lookUp p = .ok (place, e) ↔
      acceptable p = .ok () ∧ fs.walk (fs.route p).1 (fs.route p).2 = .ok place ∧
        fs.entry place = some e := by
  unfold lookUp
  constructor
  · intro h
    obtain ⟨u, ha, h⟩ := bind_eq_ok.1 h
    obtain ⟨l, hw, h⟩ := bind_eq_ok.1 h
    split at h
    next e' he =>
      cases h
      exact ⟨ha, hw, he⟩
    next => cases h
  · rintro ⟨ha, hw, he⟩
    simp [ha, hw, he, bind, Except.bind]

/-- The bytes that are read are those of the file that is found. -/
theorem read_eq_ok_iff {bytes : Bytes} :
    fs.read p = .ok bytes ↔
      ∃ place time, fs.lookUp p = .ok (place, .file bytes time) := by
  unfold read
  cases hl : fs.lookUp p with
  | error e => simp [bind, Except.bind]
  | ok found =>
      obtain ⟨place, e⟩ := found
      cases e with
      | directory => simp [bind, Except.bind]
      | file b t =>
          constructor
          · intro h
            cases h
            exact ⟨place, t, rfl⟩
          · rintro ⟨place', t', h⟩
            cases h
            rfl

-- ====================================================== writing

/-- Writing puts a file in the place that the path names. -/
theorem write_eq_ok {fs' : FileSystem} {contents : Bytes}
    (h : fs.write p contents = .ok fs') :
    ∃ place, fs.target p = .ok (.name place false) ∧
      fs.entry place ≠ some .directory ∧
      fs' = fs.set place (.file contents fs.clock) := by
  unfold write at h
  obtain ⟨t, ht, h⟩ := bind_eq_ok.1 h
  cases t with
  | standing => cases h
  | name place slash =>
      cases slash with
      | true => cases h
      | false =>
          simp only [Bool.false_eq_true, if_false] at h
          split at h
          · cases h
          next hplace =>
            cases h
            exact ⟨place, ht, fun he => hplace he, rfl⟩

theorem lookUp_write {fs' : FileSystem} {contents : Bytes}
    (h : fs.write p contents = .ok fs') :
    ∃ place, fs'.lookUp p = .ok (place, .file contents fs.clock) := by
  obtain ⟨place, ht, hplace, rfl⟩ := write_eq_ok h
  obtain ⟨init, last, directory, ha, hr, hw, hs, -⟩ := target_name ht
  have hd := entry_of_step hs
  refine ⟨place, lookUp_eq_ok_iff.2 ⟨ha, ?_, ?_⟩⟩
  · show (fs.set place _).walk (fs.route p).1 (fs.route p).2 = .ok place
    rw [hr, walk_append, walk_set_of_directory hplace hd init _ hw]
    show (fs.set place _).walk directory [last] = .ok place
    rw [walk_cons, step_set hplace hs]
    simp [bind, Except.bind, walk, entry_set]
  · rw [entry_set, if_pos rfl]

theorem read_write {fs' : FileSystem} {contents : Bytes}
    (h : fs.write p contents = .ok fs') : fs'.read p = .ok contents := by
  obtain ⟨place, hl⟩ := lookUp_write h
  exact read_eq_ok_iff.2 ⟨place, _, hl⟩

theorem holds_of_read {bytes : Bytes} (h : fs.read p = .ok bytes) :
    fs.holds p = true := by
  obtain ⟨place, time, hl⟩ := read_eq_ok_iff.1 h
  rw [holds, hl]
  rfl

-- ====================================================== disks as trees

/-- Everything lies in a directory. -/
def Tree (fs : FileSystem) : Prop :=
  ∀ place name, (fs.entry (place ++ [name])).isSome = true →
    fs.entry place = some .directory

theorem tree_empty : empty.Tree := by
  intro place name hsome
  have hvacant : empty.entry (place ++ [name]) = none := if_neg (by simp)
  rw [hvacant] at hsome
  cases hsome

/-- Something put in a directory, in place of no directory, makes a tree of a
tree. -/
theorem Tree.set (ht : fs.Tree) {directory : Location} {name : String} (e : DiskEntry)
    (hd : fs.entry directory = some .directory)
    (hplace : fs.entry (directory ++ [name]) ≠ some .directory) :
    (fs.set (directory ++ [name]) e).Tree := by
  intro above below hsome
  rw [entry_set] at hsome ⊢
  have habove : fs.entry above = some .directory := by
    by_cases heq : above ++ [below] = directory ++ [name]
    · rw [(List.append_inj' heq rfl).1]
      exact hd
    · rw [if_neg heq] at hsome
      exact ht above below hsome
  have hne : above ≠ directory ++ [name] := fun heq => hplace (heq ▸ habove)
  rw [if_neg hne, habove]

/-- What is left when blanks are dropped from the end does not end in one. -/
private theorem getLast_dropWhile_reverse {segments : List String}
    (h : (segments.reverse.dropWhile (· = "")).reverse ≠ []) :
    (segments.reverse.dropWhile (· = "")).reverse.getLast?.getD "" ≠ "" := by
  have hhead := List.head?_dropWhile_not (fun s => decide (s = "")) segments.reverse
  rw [List.getLast?_reverse]
  cases hl : segments.reverse.dropWhile (· = "") with
  | nil => exact absurd (by rw [hl]; rfl) h
  | cons s rest =>
      rw [hl] at hhead
      exact of_decide_eq_false hhead

/-- A path is made in a directory. -/
theorem directory_of_target {place : Location} {slash : Bool}
    (h : fs.target p = .ok (.name place slash)) :
    ∃ directory name, place = directory ++ [name] ∧
      fs.entry directory = some .directory := by
  unfold target at h
  obtain ⟨u, -, h⟩ := bind_eq_ok.1 h
  simp only at h
  split at h
  · cases h
  next hnamed =>
    obtain ⟨directory, hw, h⟩ := bind_eq_ok.1 h
    obtain ⟨place', hs, h⟩ := bind_eq_ok.1 h
    split at h
    · cases h
    next hdots =>
      cases h
      have hlast := getLast_dropWhile_reverse fun hnil => hnamed hnil
      refine ⟨directory, _, step_name hs hlast ?_ ?_, entry_of_step hs⟩
      · exact fun hdot => hdots (.inl hdot)
      · exact fun hup => hdots (.inr hup)

/-- Making a directory makes a tree of a tree. -/
theorem Tree.makeDirectory (ht : fs.Tree) {fs' : FileSystem}
    (h : fs.makeDirectory p = .ok fs') : fs'.Tree := by
  unfold FileSystem.makeDirectory at h
  obtain ⟨t, htarget, h⟩ := bind_eq_ok.1 h
  cases t with
  | standing => cases h
  | name place slash =>
      simp only at h
      split at h
      · cases h
      next hvacant =>
        cases h
        obtain ⟨directory, name, rfl, hd⟩ := directory_of_target htarget
        exact ht.set _ hd fun he => hvacant (by rw [he]; rfl)

/-- So does making a chain of directories, whether or not it is finished. -/
theorem Tree.makeChain (ht : fs.Tree) (chain : List FilePath) :
    (fs.makeChain chain).2.Tree := by
  induction chain with
  | nil => exact ht
  | cons q above ih =>
      unfold FileSystem.makeChain
      split
      · exact ht
      · split
        next made hmade => exact ht.makeDirectory hmade
        next =>
          split
          next e fs' habove =>
            rw [habove] at ih
            exact ih
          next fs' habove =>
            rw [habove] at ih
            split
            next made hmade => exact Tree.makeDirectory ih hmade
            next => exact ih
        next => exact ht

theorem Tree.write (ht : fs.Tree) {fs' : FileSystem} {contents : Bytes}
    (h : fs.write p contents = .ok fs') : fs'.Tree := by
  obtain ⟨place, htarget, hplace, rfl⟩ := write_eq_ok h
  obtain ⟨directory, name, rfl, hd⟩ := directory_of_target htarget
  exact ht.set _ hd hplace

-- ====================================================== failing to write

theorem route_eq (fs : FileSystem) (p : FilePath) :
    fs.route p = (if p.isAbsolute then [] else fs.workingDirectory, p.steps) := by
  unfold route
  cases h : p.isAbsolute with
  | true => rw [FilePath.segments_eq_of_absolute h]; rfl
  | false => rw [FilePath.segments_eq_of_relative h]; rfl

/-- On a tree, steps that are no names stay at directories. -/
theorem entry_of_step_dots (ht : fs.Tree) {directory place : Location} {segment : String}
    (h : fs.step directory segment = .ok place)
    (hdots : segment = "" ∨ segment = "." ∨ segment = "..") :
    fs.entry place = some .directory := by
  have hd := entry_of_step h
  unfold step at h
  rw [hd] at h
  rcases hdots with rfl | rfl | rfl
  · cases h; exact hd
  · cases h; exact hd
  · cases h
    rcases List.eq_nil_or_concat directory with rfl | ⟨above, name, rfl⟩
    · exact hd
    · rw [List.concat_eq_append] at hd ⊢
      rw [List.dropLast_concat]
      exact ht above name (by rw [hd]; rfl)

/-- On a tree, a file that can be read can be written. -/
theorem write_of_read (ht : fs.Tree) {bytes : Bytes} (h : fs.read p = .ok bytes)
    (contents : Bytes) : ∃ fs', fs.write p contents = .ok fs' := by
  obtain ⟨place, time, hl⟩ := read_eq_ok_iff.1 h
  obtain ⟨ha, hw, he⟩ := lookUp_eq_ok_iff.1 hl
  have hr : (fs.route p).2 = p.steps := by rw [route_eq]
  have hlast := List.dropLast_concat_getLast p.steps_ne_nil
  rw [hr, ← hlast] at hw
  obtain ⟨directory, hd, hs⟩ := walk_snoc hw
  have hname : ∀ s, s = "" ∨ s = "." ∨ s = ".." → p.steps.getLast p.steps_ne_nil ≠ s := by
    rintro s hdots rfl
    rw [entry_of_step_dots ht hs hdots] at he
    cases he
  have htarget : fs.target p = .ok (.name place false) := by
    rw [target_of_snoc ha (hr.trans hlast.symm) (hname _ (.inl rfl)), hd]
    simp [hs, bind, Except.bind, hname]
  exact ⟨fs.set place (.file contents fs.clock), by
    simp [write, htarget, he, bind, Except.bind]⟩

-- ================================================================ parents

variable {q : FilePath}

theorem acceptable_iff :
    acceptable p = .ok () ↔
      0 ∉ Utf8.encode p.text ∧ p.text ≠ "" ∧ (Utf8.encode p.text).length < pathLimit := by
  unfold acceptable
  simp only [List.contains_iff_mem]
  by_cases hzero : 0 ∈ Utf8.encode p.text
  · simp [hzero]
  · by_cases hempty : p.text = ""
    · rw [hempty] at hzero ⊢
      simp [hzero]
    · by_cases hlength : pathLimit ≤ (Utf8.encode p.text).length
      · simp [hzero, hempty, hlength]
      · simp [hzero, hempty, hlength]
        omega

/-- An acceptable path has acceptable parents. -/
theorem acceptable_parent (ha : acceptable p = .ok ()) (hq : p.parent? = some q)
    (hne : q.text ≠ "") : acceptable q = .ok () := by
  obtain ⟨rest, hrest⟩ := FilePath.prefix_text_parent hq
  have hbytes : Utf8.encode p.text
      = Utf8.encode q.text ++ rest.flatMap String.utf8EncodeChar := by
    unfold Utf8.encode
    rw [← hrest, List.flatMap_append]
  rw [acceptable_iff, hbytes, List.length_append] at ha
  exact acceptable_iff.2
    ⟨fun h => ha.1 (List.mem_append_left _ h), hne, by omega⟩

/-- What is found at a path is found in its parent. -/
theorem isDirectory_parent {found : Location × DiskEntry} (h : fs.lookUp p = .ok found)
    (hq : p.parent? = some q) (hne : q.text ≠ "") : fs.isDirectory q = true := by
  obtain ⟨place, e⟩ := found
  obtain ⟨ha, hw, -⟩ := lookUp_eq_ok_iff.1 h
  obtain ⟨before, after, hsteps, hafter, hparent⟩ := FilePath.steps_parent hq hne
  obtain ⟨s, more, rfl⟩ := List.exists_cons_of_ne_nil hafter
  rw [route_eq, hsteps, walk_append] at hw
  suffices key : ∃ directory, fs.lookUp q = .ok (directory, .directory) by
    obtain ⟨directory, hl⟩ := key
    rw [isDirectory, hl]
  obtain ⟨directory, hd, hmore⟩ := bind_eq_ok.1 hw
  rw [walk_cons] at hmore
  obtain ⟨next, hs, -⟩ := bind_eq_ok.1 hmore
  have hdirectory := entry_of_step hs
  refine ⟨directory, lookUp_eq_ok_iff.2 ⟨acceptable_parent ha hq hne, ?_, hdirectory⟩⟩
  rw [route_eq, FilePath.isAbsolute_parent hq hne]
  rcases hparent with heq | ⟨rfl, heq, habs⟩
  · rw [heq]
    exact hd
  · -- the root itself, with one step that stays there
    have hroot := eq_of_walk_nil hd
    rw [heq, hroot, walk_cons]
    simp [step, hdirectory, bind, Except.bind, walk]

/-- Steps that lead nowhere end at the directory where they start. -/
theorem walk_idle {segments : List String} (hidle : ∀ s ∈ segments, s = "" ∨ s = ".") :
    ∀ {here place : Location}, fs.walk here segments = .ok place → segments ≠ [] →
      fs.entry place = some .directory := by
  induction segments with
  | nil => intro _ _ _ hne; exact absurd rfl hne
  | cons s rest ih =>
      intro here place h _
      rw [walk_cons] at h
      obtain ⟨next, hs, hrest⟩ := bind_eq_ok.1 h
      have hd := entry_of_step hs
      have hstay : next = here := by
        unfold step at hs
        rw [hd] at hs
        simp only [if_pos (hidle s List.mem_cons_self)] at hs
        exact (Except.ok.inj hs).symm
      cases rest with
      | nil => rw [← eq_of_walk_nil hrest, hstay]; exact hd
      | cons t more =>
          exact ih (fun x hx => hidle x (List.mem_cons_of_mem _ hx)) hrest (List.cons_ne_nil _ _)

/-- A file that can be read lies in a directory. -/
theorem exists_parent_of_read {bytes : Bytes} (h : fs.read p = .ok bytes) :
    ∃ q, p.parent? = some q := by
  cases hq : p.parent? with
  | some q => exact ⟨q, rfl⟩
  | none =>
      obtain ⟨place, time, hl⟩ := read_eq_ok_iff.1 h
      obtain ⟨-, hw, he⟩ := lookUp_eq_ok_iff.1 hl
      rw [route_eq] at hw
      rw [walk_idle (FilePath.steps_of_no_parent hq) hw p.steps_ne_nil] at he
      cases he

/-- Making the directories on the way to a path stops only short of it: what
was not changed at all apart, the path is no directory after it. -/
theorem makeChain_error {e : FileError} (limit : Nat) :
    ∀ (q : FilePath) {fs' : FileSystem},
      fs.makeChain (ancestors limit q) = (.error e, fs') →
      fs' = fs ∨ q.text ≠ "" ∧ fs'.isDirectory q = false := by
  induction limit with
  | zero =>
      intro q fs' h
      cases h
      exact .inl rfl
  | succ limit ih =>
      intro q fs' h
      unfold ancestors makeChain at h
      split at h
      · cases h
      next hne =>
        split at h
        · cases h
        next =>
          cases hq : q.parent? with
          | none =>
              rw [hq] at h
              cases h
              exact .inl rfl
          | some parent =>
              rw [hq] at h
              simp only at h
              split at h
              next e' fs₁ habove =>
                cases h
                rcases ih parent habove with heq | ⟨hparent, hno⟩
                · exact .inl heq
                · refine .inr ⟨hne, ?_⟩
                  cases hl : fs'.lookUp q with
                  | error e => rw [isDirectory, hl]
                  | ok found =>
                      rw [isDirectory_parent hl hq hparent] at hno
                      cases hno
              next fs₁ habove =>
                split at h
                · cases h
                next e' hmake =>
                  refine .inr ⟨hne, ?_⟩
                  cases hdir : fs₁.isDirectory q with
                  | true => rw [hdir] at h; cases h
                  | false => rw [hdir] at h; cases h; exact hdir
        next => exact .inl (Prod.mk.inj h).2.symm

end TransformCache.FileSystem
