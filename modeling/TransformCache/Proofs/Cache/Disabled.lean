/-
What becomes of a store that is off from the start.

A store that is off hands out no entry and takes none in, defers nothing and
writes nothing. There is no gate that all calls go through: each of them minds
this for itself, and `load` does not. It fills the store from its file, and the
entries stay until the store is cleared.

No call changes the file, so what the store holds is told by whether it was
loaded since it was last cleared (`run_off`). It stays empty whatever it is
asked just where its file holds no entries to load.
-/
import TransformCache.Proofs.Cache.Session
import TransformCache.Proofs.Cache.StoreFile
import TransformCache.Proofs.Turn.Order

namespace TransformCache.Cache.Disabled

-- ================================================================= the calls

/-- What can be asked of a store, and of the queues that its flushes wait in. -/
inductive Operation where
  | put (key : String) (entry : Entry)
  | lookUp (key : String)
  | holds (key : String) (stamp : Stamp)
  | load
  | clear
  | disable
  | snapshot
  | schedule (queue : Nat)
  | flush
  | flushNow
  | runTurn (queue : Nat)
  | drain (queue : Nat)

/-- A call as an action on the only store that there is. -/
def Operation.action : Operation → Turn.Action Request
  | .put key entry => .effect (.put 0 key entry)
  | .lookUp key => .effect (.lookUp 0 key)
  | .holds key stamp => .effect (.holds 0 key stamp)
  | .load => .effect (.load 0)
  | .clear => .effect (.clear 0)
  | .disable => .effect (.disable 0)
  | .snapshot => .effect (.snapshot 0)
  | .schedule queue => .request (.schedule 0 queue)
  | .flush => .effect (.flush 0)
  | .flushNow => .effect (.flushNow 0)
  | .runTurn queue => .runTurn queue .count
  | .drain queue => .drain queue .count

def Operation.perform (op : Operation) (s : Session) : Session := s.perform [op.action]

/-- A store that is made off over a path, and nothing that waits. -/
def start (path : FilePath) (disk : FileSystem) : Session :=
  { host := ((Shelf.ofDisk disk).add (.disabled path)).2 }

/-- The store after some calls, with its disk and what waits. -/
def run (path : FilePath) (disk : FileSystem) (ops : List Operation) : Session :=
  ops.foldl (fun s op => op.perform s) (start path disk)

/-- Whether a store was loaded since it was last cleared; `before` says so of the
time before the call. -/
def Operation.leavesLoaded (before : Bool) : Operation → Bool
  | .load => true
  | .clear => false
  | _ => before

def loaded (ops : List Operation) : Bool := ops.foldl Operation.leavesLoaded false

-- ================================================================= one call

variable {path : FilePath} {disk : FileSystem}

/-- The entries of the file at the path, as a store finds them that is opened
over it; none if there are none to be read. -/
def stored (path : FilePath) (disk : FileSystem) : Keyed Entry := (Store.openAt path disk).entries

/-- A store that is off, with what is stored for it or with nothing. -/
def held (path : FilePath) (disk : FileSystem) (full : Bool) : Store :=
  { Store.disabled path with entries := if full then stored path disk else ∅ }

/-- Such a store is all there is: the disk is as it was, and nothing waits. -/
structure Off (path : FilePath) (disk : FileSystem) (full : Bool) (s : Session) : Prop where
  store : s.host.stores 0 = held path disk full
  disk : s.host.disk = disk
  waiting : s.waiting = []

theorem off_start (path : FilePath) (disk : FileSystem) : Off path disk false (start path disk) :=
  ⟨rfl, rfl, rfl⟩

/-- Where entries can be read from the file, they are what is stored. -/
theorem stored_of_stored {entries : Keyed Entry} (h : Store.Stored disk path entries) :
    stored path disk = entries := by
  have hload := Store.load_of_stored (s := .new path) h
  unfold stored Store.openAt
  rw [hload]

/-- A load that takes over no entries had none to take over. -/
theorem load_cases {s : Store} (hpath : s.path = path) (disk : FileSystem) :
    (∃ n, s.load disk = .ok (n, { s with entries := stored path disk })) ∨
      stored path disk = ∅ ∧ ((∃ e, s.load disk = .error e) ∨ s.load disk = .ok (0, s)) := by
  subst hpath
  cases hload : s.load disk with
  | error e =>
      refine .inr ⟨?_, .inl ⟨e, rfl⟩⟩
      rcases Store.openAt_cases s.path disk with ⟨entries, hstored, -⟩ | hnew
      · rw [Store.load_of_stored hstored] at hload
        cases hload
      · unfold stored
        rw [hnew]
        rfl
  | ok found =>
      obtain ⟨n, s'⟩ := found
      rcases Store.load_eq_ok hload with ⟨entries, hstored, -, rfl⟩ | ⟨hmissing, rfl, rfl⟩
      · exact .inl ⟨n, by rw [stored_of_stored hstored]⟩
      · refine .inr ⟨?_, .inr rfl⟩
        unfold stored Store.openAt
        rw [Store.load_of_missing (s := .new s'.path) hmissing]
        rfl

variable {full : Bool} {s : Session}

/-- One effect, and nothing else. -/
theorem Off.effect (h : Off path disk full s) {e : Request} {after : Bool}
    (hstore : (s.host.act e).stores 0 = held path disk after)
    (hdisk : (s.host.act e).disk = s.host.disk) :
    Off path disk after (s.perform [.effect e]) := by
  unfold Session.perform
  rw [Turn.perform_effect, Turn.perform_nil]
  exact ⟨hstore, hdisk.trans h.disk, h.waiting⟩

/-- A load fills the store. -/
theorem Off.load (h : Off path disk full s) :
    Off path disk true (s.perform [.effect (.load 0)]) := by
  have hpath : (s.host.stores 0).path = path := by rw [h.store]; rfl
  have hfilled : { s.host.stores 0 with entries := stored path disk } = held path disk true := by
    rw [h.store]
    rfl
  have hkept : stored path disk = ∅ → s.host.stores 0 = held path disk true := by
    intro hnone
    rw [h.store]
    unfold held
    rw [hnone]
    cases full <;> rfl
  have hact : (s.host.act (.load 0)).stores 0 = held path disk true ∧
      (s.host.act (.load 0)).disk = s.host.disk := by
    unfold Shelf.act
    simp only
    rw [h.disk]
    rcases load_cases hpath disk with ⟨n, hload⟩ | ⟨hnone, ⟨e, hload⟩ | hload⟩
    · rw [hload]
      exact ⟨hfilled, h.disk⟩
    · rw [hload]
      exact ⟨hkept hnone, h.disk⟩
    · rw [hload]
      exact ⟨hkept hnone, h.disk⟩
  exact h.effect hact.1 hact.2

/-- A flush changes nothing, whether or not its failure is passed over. -/
theorem Off.flush (h : Off path disk full s) :
    s.host.act (.flush 0) = s.host.reply .nothing ∧
      s.host.act (.flushNow 0) = s.host.reply .nothing := by
  have hoff : (s.host.stores 0).enabled = false := by rw [h.store]; rfl
  have hflush : s.host.flush 0 = (.ok (), s.host) := by
    unfold Shelf.flush
    rw [Store.flush_of_disabled hoff]
  unfold Shelf.act
  simp only
  rw [hflush]
  exact ⟨rfl, rfl⟩

/-- There is none to be deferred either. -/
theorem Off.schedule (h : Off path disk full s) (queue : Nat) :
    Off path disk full (s.perform [.request (.schedule 0 queue)]) := by
  have hoff : ¬ ((s.host.stores 0).enabled = true ∧ (s.host.stores 0).flushPending = false) := by
    rw [h.store]
    exact fun hon => by cases hon.1
  unfold Session.perform Shelf.host
  rw [Turn.perform_request, Turn.perform_nil]
  simp only
  rw [Shelf.ask_schedule_of_unwanted queue hoff, Shelf.setStore_stores, h.waiting]
  exact ⟨h.store, h.disk, rfl⟩

/-- Where nothing waits, a turn has nothing to run, and draining neither. -/
theorem Off.idle (h : Off path disk full s) (queue : Nat) :
    Off path disk full (s.perform [.runTurn queue .count]) ∧
      Off path disk full (s.perform [.drain queue .count]) := by
  obtain ⟨waiting, host⟩ := s
  obtain rfl : waiting = [] := h.waiting
  have hbatch : Turn.State.batch (⟨[], host⟩ : Session) queue
      = ([] : List Request).map fun e => [.effect e] := rfl
  unfold Session.perform
  rw [Turn.perform_runTurn hbatch, Turn.perform_drain hbatch]
  exact ⟨⟨h.store, h.disk, rfl⟩, ⟨h.store, h.disk, rfl⟩⟩

/-- What one call leaves. -/
theorem Off.perform (h : Off path disk full s) (op : Operation) :
    Off path disk (op.leavesLoaded full) (op.perform s) := by
  cases op with
  | load => exact h.load
  | put key entry =>
      refine h.effect ?_ rfl
      show (s.host.stores 0).put key entry = _
      rw [h.store]
      rfl
  | clear =>
      refine h.effect ?_ rfl
      show (s.host.stores 0).clear = held path disk false
      rw [h.store]
      rfl
  | disable =>
      refine h.effect ?_ rfl
      show (s.host.stores 0).disable = _
      rw [h.store]
      rfl
  | lookUp key => exact h.effect h.store rfl
  | holds key stamp => exact h.effect h.store rfl
  | snapshot => exact h.effect h.store rfl
  | schedule queue => exact h.schedule queue
  | flush => exact h.effect (by rw [h.flush.1]; exact h.store) (by rw [h.flush.1]; rfl)
  | flushNow => exact h.effect (by rw [h.flush.2]; exact h.store) (by rw [h.flush.2]; rfl)
  | runTurn queue => exact (h.idle queue).1
  | drain queue => exact (h.idle queue).2

-- ================================================================== all calls

/-- What calls leave. -/
theorem run_off (path : FilePath) (disk : FileSystem) (ops : List Operation) :
    Off path disk (loaded ops) (run path disk ops) := by
  have hfold : ∀ full s, Off path disk full s →
      Off path disk (ops.foldl Operation.leavesLoaded full)
        (ops.foldl (fun s op => op.perform s) s) := by
    induction ops with
    | nil => exact fun _ _ h => h
    | cons op rest ih => exact fun _ _ h => ih _ _ (h.perform op)
  exact hfold _ _ (off_start path disk)

/-- What a look-up is answered with, and the one for an entry that holds. -/
theorem Off.answers (h : Off path disk full s) (key : String) (stamp : Stamp) :
    ((Operation.lookUp key).perform s).host.answer = .entry none ∧
      ((Operation.holds key stamp).perform s).host.answer = .truth none := by
  have hnone : (s.host.stores 0).lookUp key = none := by
    rw [h.store]
    rfl
  unfold Operation.perform Operation.action Session.perform
  rw [Turn.perform_effect, Turn.perform_nil, Turn.perform_effect, Turn.perform_nil]
  constructor
  · show Answer.entry ((s.host.stores 0).lookUp key) = _
    rw [hnone]
  · show Answer.truth (((s.host.stores 0).lookUp key).map (·.holds stamp)) = _
    rw [hnone]
    rfl

/-- Whatever is asked of a store that is off from the start, it answers every
look-up with nothing, no task is deferred, and the disk stays as it was. It
stays as it was made but for its entries: these are the file's if it was loaded
since it was last cleared, and none if not. So it stays empty whatever is asked
of it just where the file holds no entries. -/
theorem disabled_store (path : FilePath) (disk : FileSystem) :
    (∀ ops, let s := run path disk ops
      (∀ key stamp, ((Operation.lookUp key).perform s).host.answer = .entry none ∧
        ((Operation.holds key stamp).perform s).host.answer = .truth none) ∧
      s.waiting = [] ∧ s.host.disk = disk ∧
      s.host.stores 0 = { Store.disabled path with
        entries := if loaded ops then (Store.openAt path disk).entries else ∅ }) ∧
    ((∀ ops, ((run path disk ops).host.stores 0).entries = ∅)
      ↔ (Store.openAt path disk).entries = ∅) := by
  have hstore : ∀ ops, (run path disk ops).host.stores 0 = { Store.disabled path with
      entries := if loaded ops then (Store.openAt path disk).entries else ∅ } :=
    fun ops => (run_off path disk ops).store
  refine ⟨fun ops => ?_, fun h => ?_, fun h ops => ?_⟩
  · have hoff := run_off path disk ops
    exact ⟨hoff.answers, hoff.waiting, hoff.disk, hstore ops⟩
  · -- the load alone fills the store
    have hloaded := h [.load]
    rw [hstore] at hloaded
    exact hloaded
  · rw [hstore, h, ite_self]

/-- One entry, and a disk with the file of a store that holds it. -/
def oneEntry : Keyed Entry := (∅ : Keyed Entry).insert "k" ⟨"x", none, .mtime 1⟩

def oneEntryDisk : FileSystem := FileSystem.empty.put ⟨"cache.json"⟩ (entriesFile oneEntry) 0

/-- Loading a store that is off from the start leaves it with an entry. -/
theorem disabled_store_filled :
    ((run ⟨"cache.json"⟩ oneEntryDisk [.load]).host.stores 0).size = 1 := by
  have hread : oneEntryDisk.read ⟨"cache.json"⟩ = .ok (entriesFile oneEntry) := by decide +kernel
  have hentry : ∀ m ∈ oneEntry.members, m.2 = ⟨"x", none, .mtime 1⟩ := fun m hm =>
    congrArg Prod.snd (List.mem_singleton.1 hm)
  have hplain : ∀ m ∈ oneEntry.members, m.2.Plain := by
    intro m hm
    rw [hentry m hm]
    exact ⟨by decide, fun map hmap => by cases hmap⟩
  have hunmarked : ∀ m ∈ oneEntry.members, m.2.Unmarked := fun m hm =>
    Entry.unmarked_of_map_eq_none (by rw [hentry m hm])
  have hstored : stored ⟨"cache.json"⟩ oneEntryDisk = oneEntry.map Entry.reloaded := by
    unfold stored
    rw [openAt_of_plain hread hplain hunmarked (by decide)]
  rw [(run_off _ _ _).store]
  unfold held
  rw [hstored]
  exact Keyed.size_map Entry.reloaded oneEntry

end TransformCache.Cache.Disabled
