/-
Stores bring in no entries of their own.

Say what entries are good, by a property that looks at the key, the code and
the stamp. As long as only good entries are put, every store over a path and
the file at that path hold good entries alone (`Vouched`): flushes write what
the stores hold, also late and also when they fail, and stores are opened and
loaded from what was written. `act_vouched` is the step, one case for each
request; `perform_vouched` carries it through turns and what they defer.
-/
import TransformCache.Proofs.Cache.Session
import TransformCache.Proofs.Cache.StoreFile
import TransformCache.Proofs.Turn

namespace TransformCache.Cache

variable {path : FilePath} {good : String → Entry → Prop}

/-- A property of entries that does not look at their maps. -/
def Mapless (good : String → Entry → Prop) : Prop :=
  ∀ key e e', e'.code = e.code → e'.stamp = e.stamp → good key e → good key e'

def AllGood (good : String → Entry → Prop) (entries : Keyed Entry) : Prop :=
  ∀ key e, entries.get? key = some e → good key e

theorem allGood_empty : AllGood good ∅ := fun _ _ h => by cases h

theorem AllGood.insert {entries : Keyed Entry} (h : AllGood good entries) {key : String}
    {e : Entry} (he : good key e) : AllGood good (entries.insert key e) := by
  intro other found hfound
  rw [Keyed.get?_insert] at hfound
  split at hfound
  next heq =>
    cases hfound
    exact heq ▸ he
  · exact h other found hfound

/-- What comes back of good entries is good. -/
theorem AllGood.reread (hmapless : Mapless good) {entries back : Keyed Entry}
    (h : AllGood good entries) (hparse : parseEntries (entriesFile entries) = .ok back) :
    AllGood good back := by
  intro key e' he'
  obtain ⟨e, he, hcode, hstamp⟩ := get?_of_parseEntries hparse he'
  exact hmapless key e e' hcode hstamp (h key e he)

-- ==================================================================== disks

/-- The file at a path is no store's, or one of good entries. -/
def FileGood (path : FilePath) (good : String → Entry → Prop) (fs : FileSystem) : Prop :=
  ∀ entries, Store.Stored fs path entries → AllGood good entries

/-- A store of good entries leaves good entries on the disk. -/
theorem FileGood.flush (hmapless : Mapless good) {s : Store} {fs : FileSystem}
    (htree : fs.Tree) (h : FileGood s.path good fs) (hheld : AllGood good s.entries) :
    FileGood s.path good (s.flush fs).2 := by
  rintro entries ⟨file, hread, hparse⟩
  rcases hflush : s.flush fs with ⟨result, after⟩
  rw [hflush] at hread
  cases result with
  | error e =>
      -- a flush that fails must not lay open a file that was out of reach
      rcases Store.flush_error htree hflush with rfl | ⟨reason, hno⟩
      · exact h entries ⟨file, hread, hparse⟩
      · rw [hno] at hread
        cases hread
  | ok u =>
      cases hon : s.enabled with
      | false =>
          rw [Store.flush_of_disabled hon] at hflush
          cases hflush
          exact h entries ⟨file, hread, hparse⟩
      | true =>
          rw [Store.read_of_flush hon hflush] at hread
          cases hread
          exact hheld.reread hmapless hparse

theorem FileGood.openAt {fs : FileSystem} (h : FileGood path good fs) :
    AllGood good (Store.openAt path fs).entries := by
  rcases Store.openAt_cases path fs with ⟨entries, hstored, heq⟩ | heq
  · rw [heq]
    exact h entries hstored
  · rw [heq]
    exact allGood_empty

theorem path_openAt (path : FilePath) (fs : FileSystem) :
    (Store.openAt path fs).path = path := by
  rcases Store.openAt_cases path fs with ⟨entries, -, heq⟩ | heq
  · rw [heq]
    rfl
  · rw [heq]
    rfl

-- ================================================================ the shelf

namespace Shelf

/-- Every store is one over the path, and good entries are all that the stores
and the file at the path hold. -/
structure Vouched (path : FilePath) (good : String → Entry → Prop) (s : Shelf) : Prop where
  tree : s.disk.Tree
  file : FileGood path good s.disk
  path_eq : ∀ n < s.made, (s.stores n).path = path
  held : ∀ n < s.made, AllGood good (s.stores n).entries

variable {s : Shelf}

theorem Vouched.reply (h : s.Vouched path good) (a : Answer) :
    (s.reply a).Vouched path good := ⟨h.tree, h.file, h.path_eq, h.held⟩

theorem Vouched.onDisk (h : s.Vouched path good) {disk : FileSystem} (htree : disk.Tree)
    (hfile : FileGood path good disk) : Vouched path good { s with disk } :=
  ⟨htree, hfile, h.path_eq, h.held⟩

theorem Vouched.setStore (h : s.Vouched path good) (n : Nat) {store : Store}
    (hpath : n < s.made → store.path = path)
    (hheld : n < s.made → AllGood good store.entries) :
    (s.setStore n store).Vouched path good where
  tree := h.tree
  file := h.file
  path_eq m hm := by
    rw [stores_setStore]
    split
    next heq => exact hpath (heq ▸ hm)
    · exact h.path_eq m hm
  held m hm := by
    rw [stores_setStore]
    split
    next heq => exact hheld (heq ▸ hm)
    · exact h.held m hm

theorem Vouched.flush (hmapless : Mapless good) (h : s.Vouched path good) {n : Nat}
    (hn : n < s.made) : (s.flush n).2.Vouched path good := by
  have hpath := h.path_eq n hn
  refine h.onDisk (Store.tree_flush h.tree _) ?_
  rw [← hpath]
  exact FileGood.flush hmapless h.tree (by rw [hpath]; exact h.file) (h.held n hn)

theorem Vouched.put (h : s.Vouched path good) (n : Nat) {key : String} {e : Entry}
    (he : good key e) : (s.modify n (·.put key e)).Vouched path good := by
  refine h.setStore n (fun hn => ?_) fun hn => ?_
  · show ((s.stores n).put key e).path = path
    unfold Store.put
    split
    · exact h.path_eq n hn
    · exact h.path_eq n hn
  · show AllGood good ((s.stores n).put key e).entries
    unfold Store.put
    split
    · exact (h.held n hn).insert he
    · exact h.held n hn

/-- A store is turned off, or its mark is set or taken away. -/
theorem Vouched.mark (h : s.Vouched path good) (n : Nat) (enabled flushPending : Bool) :
    (s.setStore n { s.stores n with enabled, flushPending }).Vouched path good :=
  h.setStore n (h.path_eq n) (h.held n)

/-- A further store, opened over the path. -/
theorem Vouched.add (h : s.Vouched path good) :
    (s.add (.opened path)).2.Vouched path good where
  tree := h.tree
  file := h.file
  path_eq m hm := by
    have hm' : m < s.made + 1 := hm
    show ((s.setStore s.made (Store.openAt path s.disk)).stores m).path = path
    rw [stores_setStore]
    split
    · exact path_openAt ..
    · exact h.path_eq m (by omega)
  held m hm := by
    have hm' : m < s.made + 1 := hm
    show AllGood good ((s.setStore s.made (Store.openAt path s.disk)).stores m).entries
    rw [stores_setStore]
    split
    · exact h.file.openAt
    · exact h.held m (by omega)

-- ================================================================= requests

/-- A request that brings in nothing but good entries: what is put is good, the
disk is not changed from outside, and a store that flushes was made. -/
def Sound (good : String → Entry → Prop) (made : Nat) : Request → Prop
  | .put _ key e => good key e
  | .deferredFlush n => n < made
  | .flush n => n < made
  | .flushNow n => n < made
  | .schedule n _ => n < made
  | .edit _ => False
  | _ => True

theorem Sound.mono {made more : Nat} (hmore : made ≤ more) (e : Request)
    (h : Sound good made e) : Sound good more e := by
  cases e with
  | deferredFlush n => exact Nat.lt_of_lt_of_le h hmore
  | flush n => exact Nat.lt_of_lt_of_le h hmore
  | flushNow n => exact Nat.lt_of_lt_of_le h hmore
  | schedule n queue => exact Nat.lt_of_lt_of_le h hmore
  | _ => exact h

/-- Requests that bring in good entries alone keep all entries good. -/
theorem act_vouched (hmapless : Mapless good) (h : s.Vouched path good) {e : Request}
    (he : Sound good s.made e) : (s.act e).Vouched path good := by
  cases e with
  | put n key entry => exact (h.put n he).reply _
  | deferredFlush n =>
      have hbegun : (s.setStore n (s.stores n).beginFlush).Vouched path good := h.mark n _ _
      exact (hbegun.flush hmapless he).reply _
  | flush n => exact (h.flush hmapless he).reply _
  | flushNow n =>
      have hflushed := h.flush hmapless he
      unfold act
      simp only
      rcases hflush : s.flush n with ⟨_ | _, after⟩
      · rw [hflush] at hflushed
        exact hflushed.reply _
      · rw [hflush] at hflushed
        exact hflushed.reply _
  | load n =>
      unfold act
      simp only
      cases hload : (s.stores n).load s.disk with
      | error e => exact h.reply _
      | ok found =>
          obtain ⟨count, store⟩ := found
          refine (h.setStore n (fun hn => ?_) fun hn => ?_).reply _
          · rcases Store.load_eq_ok hload with ⟨entries, -, -, rfl⟩ | ⟨-, -, rfl⟩
            · exact h.path_eq n hn
            · exact h.path_eq n hn
          · rcases Store.load_eq_ok hload with ⟨entries, hstored, -, rfl⟩ | ⟨-, -, rfl⟩
            · rw [h.path_eq n hn] at hstored
              exact h.file entries hstored
            · exact h.held n hn
  | clear n =>
      have hcleared : (s.setStore n (s.stores n).clear).Vouched path good :=
        h.setStore n (h.path_eq n) fun _ => allGood_empty
      exact hcleared.reply _
  | disable n => exact (h.mark n false _).reply _
  | edit change => exact he.elim
  | lookUp n key => exact h.reply _
  | holds n key stamp => exact h.reply _
  | schedule n queue => exact h.reply _
  | snapshot n => exact h.reply _
  | path n => exact h.reply _
  | describe n => exact h.reply _
  | fileText path => exact h.reply _
  | fileExists path => exact h.reply _
  | count k => exact h.reply _

/-- So does asking, and what is deferred then brings in nothing else either. -/
theorem ask_vouched (hmapless : Mapless good) (h : s.Vouched path good) {e : Request}
    (he : Sound good s.made e) :
    (s.ask e).1.Vouched path good ∧ (s.ask e).1.made = s.made ∧
      ∀ q ∈ (s.ask e).2, Sound good s.made q.2 := by
  by_cases hschedule : ∃ n queue, e = .schedule n queue
  · obtain ⟨n, queue, rfl⟩ := hschedule
    by_cases hwanted : (s.stores n).enabled = true ∧ (s.stores n).flushPending = false
    · rw [ask_schedule_of_wanted queue hwanted.1 hwanted.2]
      refine ⟨(h.mark n _ true).reply _, rfl, fun q hq => ?_⟩
      rw [← Option.some.inj (Option.mem_def.1 hq)]
      exact he
    · rw [ask_schedule_of_unwanted queue hwanted]
      exact ⟨(h.setStore n (h.path_eq n) (h.held n)).reply _, rfl, fun q hq => by cases hq⟩
  · rw [ask_eq_act e fun n queue heq => hschedule ⟨n, queue, heq⟩]
    exact ⟨act_vouched hmapless h he, act_made e, fun q hq => by cases hq⟩

end Shelf

-- ============================================================== the session

/-- A shelf of good entries, and nothing waits that would bring in others. -/
structure Session.Vouched (path : FilePath) (good : String → Entry → Prop) (s : Session) :
    Prop where
  shelf : s.host.Vouched path good
  waiting : ∀ w ∈ s.waiting, Turn.taskAll (Shelf.Sound good s.host.made) w.2

/-- Another shelf, on which stores may have been added. -/
theorem Session.Vouched.onShelf {s : Session} (h : s.Vouched path good) {host : Shelf}
    (hhost : host.Vouched path good) (hmade : s.host.made ≤ host.made) :
    Session.Vouched path good { s with host } where
  shelf := hhost
  waiting w hw :=
    Turn.taskAll_mono (fun e he => Shelf.Sound.mono hmade e he) w.2 (h.waiting w hw)

/-- A task that brings in nothing but good entries may be deferred. -/
theorem Session.Vouched.defer {s : Session} (h : s.Vouched path good) (queue : Nat)
    {task : Turn.Task Request} (htask : Turn.taskAll (Shelf.Sound good s.host.made) task) :
    Session.Vouched path good (Turn.State.defer s queue task) where
  shelf := h.shelf
  waiting w hw := by
    rcases List.mem_append.1 hw with hw | hw
    · exact h.waiting w hw
    · rw [List.mem_singleton.1 hw]
      exact htask

/-- Working off sound requests keeps all entries good, whatever they defer. -/
theorem Session.perform_vouched (hmapless : Mapless good) {s : Session}
    (h : s.Vouched path good) {actions : Turn.Task Request}
    (hactions : Turn.taskAll (Shelf.Sound good s.host.made) actions) :
    (s.perform actions).Vouched path good ∧ (s.perform actions).host.made = s.host.made := by
  have hact : ∀ e, Shelf.Sound good s.host.made e → ∀ x : Shelf,
      x.Vouched path good ∧ x.made = s.host.made →
      (x.act e).Vouched path good ∧ (x.act e).made = s.host.made := by
    rintro e he x ⟨hx, hmade⟩
    exact ⟨Shelf.act_vouched hmapless hx (hmade ▸ he), (Shelf.act_made e).trans hmade⟩
  have hask : ∀ e, Shelf.Sound good s.host.made e → ∀ x : Shelf,
      x.Vouched path good ∧ x.made = s.host.made →
      ((x.ask e).1.Vouched path good ∧ (x.ask e).1.made = s.host.made) ∧
        ∀ q ∈ (x.ask e).2, Shelf.Sound good s.host.made q.2 := by
    rintro e he x ⟨hx, hmade⟩
    obtain ⟨hafter, hsame, hdeferred⟩ := Shelf.ask_vouched hmapless hx (hmade ▸ he)
    exact ⟨⟨hafter, hsame.trans hmade⟩, hmade ▸ hdeferred⟩
  obtain ⟨⟨hshelf, hmade⟩, hwaiting⟩ :=
    Turn.perform_orderly (h := Shelf.host) hact hask ⟨h.shelf, rfl⟩ h.waiting hactions
  have hmade' : (s.perform actions).host.made = s.host.made := hmade
  refine ⟨⟨hshelf, fun w hw => ?_⟩, hmade'⟩
  rw [hmade']
  exact hwaiting w hw

end TransformCache.Cache
