/-
A cache that cannot be told from none.

# Runs

A `Moment` of a run is a world and the register that lives in it, if one does.
A run goes from moment to moment by moves: a register begins to live, over a
store that is opened; it is configured, compiles, flushes and is torn down; it
is dropped, or lost in a crash, which loses the tasks that wait as well; and
in between turns are run, and the disk is changed from outside.

# Why the cache does not show

Every entry in every store, and in the file, is genuine at every moment
(`upright_moment`): compiles put answers to their own questions, and nothing
else brings entries in. A compile that is answered by the store finds the key
and the stamp of its own question on an entry, so what the entry holds is the
answer (`Question.answer_eq`). Neither the mode in which the entry was put nor
the life of the register that put it matters.
-/
import TransformCache.Proofs.Cache.Vouched
import TransformCache.Proofs.Register.Genuine

namespace TransformCache.Transparency

open Cache (Request)

variable {S : Setting} {disks : FileSystem → Prop} {made : Nat} {r : Register} {w : World}
  {path : FilePath}

-- ================================================================== worlds

/-- Asking for a flush brings in no entries. -/
theorem scheduleFlush_vouched {good : String → Cache.Entry → Prop}
    (hmapless : Cache.Mapless good) (hw : w.session.Vouched path good) {n : Nat}
    (hn : n < w.session.host.made) :
    (w.scheduleFlush n).session.Vouched path good ∧
      (w.scheduleFlush n).session.host.made = w.session.host.made := by
  have hasked : Cache.Shelf.Sound good w.session.host.made (.schedule n 0) := hn
  obtain ⟨hafter, hmade, hdeferred⟩ := Cache.Shelf.ask_vouched hmapless hw.shelf hasked
  unfold World.scheduleFlush
  rcases hask : Cache.Shelf.ask (.schedule n 0) w.session.host with ⟨host, wanted⟩
  rw [hask] at hafter hmade hdeferred
  have hhost := hw.onShelf hafter (Nat.le_of_eq hmade.symm)
  cases wanted with
  | none => exact ⟨hhost, hmade⟩
  | some q =>
      obtain ⟨queue, flush⟩ := q
      have hflush : Cache.Shelf.Sound good host.made flush := hmade ▸ hdeferred _ rfl
      exact ⟨hhost.defer queue ⟨hflush, trivial⟩, hmade⟩

-- ============================================================== one compile

/-- A register of a setting, over a store that was made. -/
structure Belongs (S : Setting) (made : Nat) (r : Register) : Prop where
  engine : r.engine = S.engine
  discriminator : r.env.discriminator = S.discriminator
  plain : r.config.transform.Plain
  store : r.store < made

def question (r : Register) (w : World) (path : FilePath) : Question :=
  ⟨w.disk, path, r.config.transform, r.config.mode⟩

theorem Belongs.answer_eq (h : Belongs S made r) (w : World) (path : FilePath) :
    (question r w path).answer S = freshCode r.engine w.disk r.config.transform path := by
  rw [h.engine]
  rfl

/-- A ticket is the key and the stamp of the question. -/
theorem Belongs.ticket_eq (h : Belongs S made r) (w : World) (path : FilePath) :
    r.ticket w (r.optionsOf path) path
      = match (question r w path).key S with
        | .error e => .error e
        | .ok key =>
          match (question r w path).stamp with
          | .error e => .error e
          | .ok stamp => .ok ⟨key, stamp⟩ := by
  unfold Register.ticket
  rw [h.engine, h.discriminator]
  rfl

theorem Belongs.of_ticket (h : Belongs S made r) {t : Register.Ticket}
    (ht : r.ticket w (r.optionsOf path) path = .ok t) :
    (question r w path).key S = .ok t.key ∧ (question r w path).stamp = .ok t.stamp := by
  rw [h.ticket_eq] at ht
  cases hkey : (question r w path).key S with
  | error e => rw [hkey] at ht; cases ht
  | ok key =>
      rw [hkey] at ht
      cases hstamp : (question r w path).stamp with
      | error e => rw [hstamp] at ht; cases ht
      | ok stamp =>
          rw [hstamp] at ht
          cases ht
          exact ⟨rfl, rfl⟩

/-- There is no ticket for a file that cannot be read, or that has no name. -/
theorem Belongs.of_ticket_error (h : Belongs S made r) {e : Error}
    (ht : r.ticket w (r.optionsOf path) path = .error e) :
    freshCode r.engine w.disk r.config.transform path = none ∨
      ∃ root project, r.config.mode = .checksum root project ∧
        FilePath.relative? root path = none ∧ e = .config (.unrelated path root) := by
  rw [h.ticket_eq] at ht
  cases hkey : (question r w path).key S with
  | error e' =>
      rw [hkey] at ht
      cases ht
      exact .inr (Question.key_error hkey)
  | ok key =>
      rw [hkey] at ht
      cases hstamp : (question r w path).stamp with
      | error e' =>
          rw [← h.answer_eq, Question.answer_of_stamp_error hstamp]
          exact .inl rfl
      | ok stamp => rw [hstamp] at ht; cases ht

theorem Belongs.proper (h : Belongs S made r) (hdisk : disks w.disk)
    (hpath : S.source path) : (question r w path).Proper S disks :=
  ⟨hdisk, hpath, h.plain⟩

/-- What a genuine entry holds under a ticket is the fresh code. -/
theorem Belongs.freshCode_of_genuine (hsources : Sources S disks)
    (hengine : r.config.mode.isRelocatable = true → S.engine.Indifferent)
    (hr : Belongs S made r) (hdisk : disks w.disk) (hpath : S.source path)
    {t : Register.Ticket} (ht : r.ticket w (r.optionsOf path) path = .ok t)
    {entry : Cache.Entry} (hentry : Genuine S disks t.key entry)
    (hstamp : entry.stamp = t.stamp) :
    freshCode r.engine w.disk r.config.transform path = some entry.code := by
  obtain ⟨hkey, hshown⟩ := hr.of_ticket ht
  obtain ⟨q, hq, hqkey, hqstamp, hqanswer⟩ := hentry
  have hsame := Question.answer_eq hsources hengine (hr.proper hdisk hpath) hq hkey hqkey
    hshown (hstamp ▸ hqstamp)
  rw [← hr.answer_eq, hsame, hqanswer]

/-- Filing the answer to a question keeps all entries genuine. -/
theorem file_vouched (hr : Belongs S w.session.host.made r) (hdisk : disks w.disk)
    (hpath : S.source path) (hw : w.session.Vouched S.storePath (Genuine S disks))
    {t : Register.Ticket} (ht : r.ticket w (r.optionsOf path) path = .ok t) {output : Output}
    (hmakes : r.Makes w path output) :
    (r.file w t output).session.Vouched S.storePath (Genuine S disks) ∧
      (r.file w t output).session.host.made = w.session.host.made := by
  obtain ⟨hkey, hstamp⟩ := hr.of_ticket ht
  have hgenuine : Genuine S disks t.key ⟨output.code, output.map, t.stamp⟩ :=
    ⟨question r w path, hr.proper hdisk hpath, hkey, hstamp,
      (hr.answer_eq w path).trans hmakes.freshCode_eq⟩
  have hput : (w.modifyStore r.store (·.put t.key ⟨output.code, output.map, t.stamp⟩)).session.Vouched
      S.storePath (Genuine S disks) :=
    hw.onShelf (hw.shelf.put r.store hgenuine) (Nat.le_refl _)
  exact scheduleFlush_vouched (genuine_mapless S disks) hput hr.store

/-- After a compile all entries are genuine as before. -/
theorem compile_vouched (hadds : S.engine.AddsNothing)
    (hr : Belongs S w.session.host.made r) (hdisk : disks w.disk) (hpath : S.source path)
    (hw : w.session.Vouched S.storePath (Genuine S disks)) :
    (r.compile w path none).world.session.Vouched S.storePath (Genuine S disks) ∧
      (r.compile w path none).world.session.host.made = w.session.host.made := by
  have hcases := Register.compile_cases (hr.engine ▸ hadds) w path
  generalize (r.compile w path none).world.session = session at hcases ⊢
  generalize (r.compile w path none).result = result at hcases
  cases hcases with
  | refused => exact ⟨hw, rfl⟩
  | answered => exact ⟨hw, rfl⟩
  | failed => exact ⟨hw, rfl⟩
  | made => exact ⟨hw, rfl⟩
  | stored hmakes hticket => exact file_vouched hr hdisk hpath hw hticket hmakes

/-- A compile ends with the answer to its question, unless the file has no
name from the source root. -/
theorem compile_answer (hadds : S.engine.AddsNothing) (hsources : Sources S disks)
    (hengine : r.config.mode.isRelocatable = true → S.engine.Indifferent)
    (hr : Belongs S w.session.host.made r) (hdisk : disks w.disk) (hpath : S.source path)
    (hw : w.session.Vouched S.storePath (Genuine S disks)) :
    (r.compile w path none).result.toOption
        = freshCode r.engine w.disk r.config.transform path ∨
      ∃ root project, r.caching w = true ∧ r.config.mode = .checksum root project ∧
        FilePath.relative? root path = none ∧
        (r.compile w path none).result = .error (.config (.unrelated path root)) := by
  have hcases := Register.compile_cases (hr.engine ▸ hadds) w path
  generalize (r.compile w path none).world.session = session at hcases
  generalize (r.compile w path none).result = result at hcases ⊢
  cases hcases with
  | failed hfresh => exact .inl hfresh.symm
  | made hmakes => exact .inl hmakes.freshCode_eq.symm
  | stored hmakes => exact .inl hmakes.freshCode_eq.symm
  | refused hcaching hticket =>
      rcases hr.of_ticket_error hticket with hfresh | ⟨root, project, hmode, hway, rfl⟩
      · exact .inl hfresh.symm
      · exact .inr ⟨root, project, hcaching, hmode, hway, rfl⟩
  | @answered t entry hcaching hticket hentry hstamp =>
      left
      have hget : (w.store r.store).entries.get? t.key = some entry := by
        unfold Cache.Store.lookUp at hentry
        split at hentry
        · exact hentry
        · cases hentry
      have hgenuine := hw.shelf.held r.store hr.store t.key entry hget
      exact (hr.freshCode_of_genuine hsources hengine hdisk hpath hticket hgenuine hstamp).symm

-- ==================================================================== runs

/-- A world, and the register that lives in it. -/
structure Moment where
  world : World
  register : Option Register := none

/-- What happens next. What is said of a register is nothing where none
lives. -/
inductive Move where
  /-- A register begins to live, over a store that is opened for it. -/
  | begin (table : ExtensionTable Loader) (env : Environment) (workingDirectory : FilePath)
  | configure (options : Options)
  | compile (path : FilePath)
  | flush
  | tearDown
  /-- The register is torn down and is no more. -/
  | drop
  /-- The register and the tasks that wait are no more; nothing is flushed. -/
  | crash
  /-- What waits in a queue is run. -/
  | turn (queue : Nat)
  /-- A queue is run until it is empty. -/
  | drain (queue : Nat)
  /-- The disk is changed from outside. -/
  | change (disk : FileSystem)

/-- The moment after a move of the register that lives. -/
def Move.ofRegister (w : World) (r : Register) : Move → Moment
  | .configure options =>
    let done := r.configure w options
    ⟨done.world, some done.register⟩
  | .compile path =>
    let done := r.compile w path none
    ⟨done.world, some done.register⟩
  | .flush => ⟨w.flush r.store, some r⟩
  | .tearDown => ⟨(r.tearDown w).2, some (r.tearDown w).1⟩
  | .drop => ⟨(r.tearDown w).2, none⟩
  | _ => ⟨w, some r⟩

/-- The moment after a move. -/
def Move.apply (S : Setting) (m : Moment) : Move → Moment
  | .begin table env workingDirectory =>
    let (store, w) := m.world.addStore (.opened S.storePath)
    let (r, w) := Register.create w table S.engine store env workingDirectory
    ⟨w, some r⟩
  | .crash => ⟨{ m.world with session := { host := m.world.session.host } }, none⟩
  | .turn queue => { m with world := m.world.perform [.runTurn queue .count] }
  | .drain queue => { m with world := m.world.perform [.drain queue .count] }
  | .change disk => { m with world := m.world.onShelf fun s => { s with disk } }
  | move =>
    match m.register with
    | some r => move.ofRegister m.world r
    | none => m

/-- The moments of a run that begins without a store. -/
def moment (S : Setting) (start : FileSystem) (moves : Nat → Move) : Nat → Moment
  | 0 => { world := .ofDisk start }
  | t + 1 => (moves t).apply S (moment S start moves t)

-- ================================================================ the runs meant

/-- What a move keeps to, where `past` are the disks that there were. Files that
are compiled are sources, numbers in options are whole, and a change from
outside makes no entries up: the file of the store may be lost or damaged, or
old entries may come back. -/
def Move.Allowed (S : Setting) (past : FileSystem → Prop) : Move → Prop
  | .begin _ env _ => env.discriminator = S.discriminator
  | .configure options => options.transform.Plain
  | .compile path => S.source path
  | .change disk => disk.Tree ∧
    ∀ entries, Cache.Store.Stored disk S.storePath entries →
      ∀ key e, entries.get? key = some e → ∃ old, past old ∧
        ∃ entries', Cache.Store.Stored old S.storePath entries' ∧ entries'.get? key = some e
  | _ => True

/-- What is taken for granted of a run. -/
structure Premises (S : Setting) (start : FileSystem) (moves : Nat → Move) : Prop where
  engine : S.engine.AddsNothing
  tree : start.Tree
  /-- The file of the store is not there, or is no store's. -/
  absent : ∀ entries, ¬ Cache.Store.Stored start S.storePath entries
  allowed : ∀ t, (moves t).Allowed S fun old =>
    ∃ t' ≤ t, (moment S start moves t').world.disk = old
  sources : Sources S fun d => ∃ t, (moment S start moves t).world.disk = d
  /-- A register that goes by checksums needs an engine that does not look at
  the names of files. -/
  names : ∀ t, ∀ r ∈ (moment S start moves t).register,
    r.config.mode.isRelocatable = true → S.engine.Indifferent

/-- All entries are genuine, and the register is one of the setting. -/
structure Upright (S : Setting) (disks : FileSystem → Prop) (m : Moment) : Prop where
  session : m.world.session.Vouched S.storePath (Genuine S disks)
  register : ∀ r ∈ m.register, Belongs S m.world.session.host.made r

-- =============================================================== every move

theorem disable_vouched {good : String → Cache.Entry → Prop}
    (hw : w.session.Vouched path good) (n : Nat) :
    (w.modifyStore n (·.disable)).session.Vouched path good :=
  hw.onShelf (hw.shelf.mark n false _) (Nat.le_refl _)

theorem flush_vouched {good : String → Cache.Entry → Prop} (hmapless : Cache.Mapless good)
    (hw : w.session.Vouched path good) {n : Nat} (hn : n < w.session.host.made) :
    (w.flush n).session.Vouched path good :=
  hw.onShelf (hw.shelf.flush hmapless hn) (Nat.le_refl _)

/-- A register begins with no options for its engine. -/
theorem upright_create (hw : w.session.Vouched S.storePath (Genuine S disks)) {n : Nat}
    (hn : n < w.session.host.made) (table : ExtensionTable Loader) {env : Environment}
    (henv : env.discriminator = S.discriminator) (workingDirectory : FilePath) :
    let made := Register.create w table S.engine n env workingDirectory
    Upright S disks ⟨made.2, some made.1⟩ := by
  intro made
  obtain ⟨⟨hooks, table', hr⟩, hsession⟩ :=
    Register.create_cases w table S.engine n env workingDirectory
  have hbelongs : Belongs S w.session.host.made made.1 := by
    rw [show made.1 = _ from hr]
    exact ⟨rfl, henv, EngineOptions.plain_empty, hn⟩
  rcases hsession with hsession | hsession
  · refine ⟨hsession ▸ hw, fun _ hr' => ?_⟩
    cases hr'
    exact hsession ▸ hbelongs
  · refine ⟨hsession ▸ disable_vouched hw n, fun _ hr' => ?_⟩
    cases hr'
    exact hsession ▸ hbelongs

/-- Options that are plain leave a register one of the setting. -/
theorem upright_configure (hr : Belongs S w.session.host.made r)
    (hw : w.session.Vouched S.storePath (Genuine S disks)) {options : Options}
    (hplain : options.transform.Plain) :
    Upright S disks ⟨(r.configure w options).world, some (r.configure w options).register⟩ := by
  rcases Register.configure_cases r w options with
    ⟨hsame, hworld⟩ | ⟨config, messages, hooks, table, hmerge, hregister, hsession⟩
  · rw [hsame, hworld]
    exact ⟨hw, fun _ hr' => by cases hr'; exact hr⟩
  · have hbelongs : Belongs S w.session.host.made (r.configure w options).register := by
      rw [hregister]
      exact ⟨hr.engine, hr.discriminator,
        Register.transform_of_merge hmerge ▸ hr.plain.merged hplain, hr.store⟩
    rcases hsession with hsession | hsession
    · refine ⟨hsession ▸ hw, fun _ hr' => ?_⟩
      cases hr'
      exact hsession ▸ hbelongs
    · refine ⟨hsession ▸ disable_vouched hw r.store, fun _ hr' => ?_⟩
      cases hr'
      exact hsession ▸ hbelongs

/-- What a register does keeps all entries genuine. -/
theorem upright_ofRegister (hadds : S.engine.AddsNothing)
    (hr : Belongs S w.session.host.made r) (hdisk : disks w.disk)
    (hw : w.session.Vouched S.storePath (Genuine S disks)) {move : Move}
    {past : FileSystem → Prop} (hallowed : move.Allowed S past) :
    Upright S disks (move.ofRegister w r) := by
  have hmapless := genuine_mapless S disks
  have hstay : Upright S disks ⟨w, some r⟩ := ⟨hw, fun _ hr' => by cases hr'; exact hr⟩
  have htearDown : Upright S disks ⟨(r.tearDown w).2, some (r.tearDown w).1⟩ := by
    rcases Register.tearDown_cases r w with heq | ⟨hooks, table, heq⟩
    · rw [heq]
      exact hstay
    · rw [heq]
      refine ⟨flush_vouched hmapless hw hr.store, fun _ hr' => ?_⟩
      cases hr'
      exact ⟨hr.engine, hr.discriminator, hr.plain, hr.store⟩
  cases move with
  | configure options => exact upright_configure hr hw hallowed
  | compile path =>
      obtain ⟨hafter, hmade⟩ := compile_vouched hadds hr hdisk hallowed hw
      obtain ⟨maps, hregister⟩ := Register.register_compile r w path none
      refine ⟨hafter, fun _ hr' => ?_⟩
      cases hr'
      show Belongs S (r.compile w path none).world.session.host.made
        (r.compile w path none).register
      rw [hmade, hregister]
      exact ⟨hr.engine, hr.discriminator, hr.plain, hr.store⟩
  | flush =>
      exact ⟨flush_vouched hmapless hw hr.store, fun _ hr' => by cases hr'; exact hr⟩
  | tearDown => exact htearDown
  | drop => exact ⟨htearDown.session, fun _ hr' => by cases hr'⟩
  | _ => exact hstay

/-- Every move that is allowed keeps all entries genuine. -/
theorem upright_apply (hadds : S.engine.AddsNothing) {m : Moment} (hm : Upright S disks m)
    (hdisk : disks m.world.disk) {move : Move} {past : FileSystem → Prop}
    (hpast : ∀ d, past d → Cache.FileGood S.storePath (Genuine S disks) d)
    (hallowed : move.Allowed S past) : Upright S disks (move.apply S m) := by
  have hmapless := genuine_mapless S disks
  -- the moves of the register come to nothing where none lives
  have hregister : Upright S disks (match m.register with
      | some r => move.ofRegister m.world r
      | none => m) := by
    cases hr : m.register with
    | none => exact hm
    | some r => exact upright_ofRegister hadds (hm.register r hr) hdisk hm.session hallowed
  have hperform : ∀ actions,
      Turn.taskAll (Cache.Shelf.Sound (Genuine S disks) m.world.session.host.made) actions →
      Upright S disks { m with world := m.world.perform actions } := by
    intro actions hactions
    obtain ⟨hafter, hmade⟩ := Cache.Session.perform_vouched hmapless hm.session hactions
    refine ⟨hafter, fun r hr => ?_⟩
    show Belongs S (Cache.Session.perform _ _).host.made r
    rw [hmade]
    exact hm.register r hr
  cases move with
  | begin table env workingDirectory =>
      have hopened : (m.world.addStore (.opened S.storePath)).2.session.Vouched S.storePath
          (Genuine S disks) := hm.session.onShelf hm.session.shelf.add (Nat.le_succ _)
      exact upright_create hopened (Nat.lt_succ_self _) table hallowed workingDirectory
  | crash =>
      exact ⟨⟨hm.session.shelf, fun _ hw => (List.not_mem_nil hw).elim⟩, fun _ hr => by cases hr⟩
  | turn queue => exact hperform _ ⟨fun _ => trivial, trivial⟩
  | drain queue => exact hperform _ ⟨fun _ => trivial, trivial⟩
  | change disk =>
      obtain ⟨htree, hentries⟩ := hallowed
      -- entries that are found now were found before, and were genuine then
      have hfile : Cache.FileGood S.storePath (Genuine S disks) disk := by
        intro entries hstored key e he
        obtain ⟨old, hold, entries', hstored', he'⟩ := hentries entries hstored key e he
        exact hpast old hold entries' hstored' key e he'
      exact ⟨hm.session.onShelf (hm.session.shelf.onDisk htree hfile) (Nat.le_refl _),
        hm.register⟩
  | _ => exact hregister

/-- All entries are genuine at every moment. -/
theorem upright_moment {start : FileSystem} {moves : Nat → Move}
    (h : Premises S start moves) (t : Nat) :
    Upright S (fun d => ∃ t, (moment S start moves t).world.disk = d)
      (moment S start moves t) := by
  -- a change from outside may bring back entries of any moment before
  induction t using Nat.strongRecOn with
  | ind t ih =>
      cases t with
      | zero =>
          refine ⟨⟨⟨h.tree, fun entries hstored => (h.absent entries hstored).elim, ?_, ?_⟩, ?_⟩,
            fun _ hr => by cases hr⟩
          · exact fun _ hn => (Nat.not_lt_zero _ hn).elim
          · exact fun _ hn => (Nat.not_lt_zero _ hn).elim
          · exact fun _ hw => (List.not_mem_nil hw).elim
      | succ t =>
          refine upright_apply h.engine (ih t (Nat.lt_succ_self t)) ⟨t, rfl⟩ ?_ (h.allowed t)
          rintro old ⟨t', ht', rfl⟩
          exact (ih t' (Nat.lt_succ_of_le ht')).session.shelf.file

-- ============================================================ main statement

/-- At every moment of every run, whatever lives and moves came before: a
register that compiles a source answers with the code that it would answer
with its cache off, and fails if it would fail then. The one exception is a
file away from the source root, which a register that goes by checksums
refuses, because it has no name for it. -/
theorem cache_transparent {start : FileSystem} {moves : Nat → Move}
    (h : Premises S start moves) (t : Nat) {r : Register}
    (hr : (moment S start moves t).register = some r) {path : FilePath}
    (hpath : S.source path) :
    let w := (moment S start moves t).world
    (r.compile w path none).result.toOption
        = (r.withoutCache.compile w path none).result.toOption ∨
      ∃ root project, r.caching w = true ∧ r.config.mode = .checksum root project ∧
        FilePath.relative? root path = none ∧
        (r.compile w path none).result = .error (.config (.unrelated path root)) := by
  intro w
  have hm := upright_moment h t
  have hbelongs := hm.register r hr
  rw [Register.compile_withoutCache (hbelongs.engine ▸ h.engine)]
  exact compile_answer h.engine h.sources (h.names t r hr) hbelongs ⟨t, rfl⟩ hpath hm.session

/-- An engine that hands over the text of one file. -/
def copying : Setting where
  storePath := ⟨"/store"⟩
  engine := { version := "1", transform := fun text _ => .ok ⟨text, none⟩ }
  discriminator := none
  source := (· = ⟨"/a.js"⟩)

/-- A disk with that file. -/
def oneFile : FileSystem := FileSystem.empty.set ["a.js"] (.file (Utf8.encode "a") 5000)

/-- One register compiles the file and is dropped, another begins, and is lost
in the end. -/
def twoLives : Nat → Move
  | 0 => .begin ∅ {} ⟨"/"⟩
  | 1 => .compile ⟨"/a.js"⟩
  | 2 => .drop
  | 3 => .begin ∅ {} ⟨"/"⟩
  | _ => .crash

/-- The file stays as it is while the file of the store is written. -/
theorem read_twoLives (t : Nat) :
    ((moment copying oneFile twoLives t).world.disk.read ⟨"/a.js"⟩).toOption
      = some (Utf8.encode "a") := by
  match t with
  | 0 => decide +kernel
  | 1 => decide +kernel
  | 2 => decide +kernel
  | 3 => decide +kernel
  | 4 => decide +kernel
  | t + 5 => exact read_twoLives (t + 4)

theorem premises_twoLives : Premises copying oneFile twoLives where
  engine _ _ := rfl
  tree := by
    show (FileSystem.empty.set ([] ++ ["a.js"]) _).Tree
    exact FileSystem.tree_empty.set _ rfl (by decide)
  absent entries := by
    rintro ⟨file, hread, -⟩
    have hnone : (oneFile.read copying.storePath).toOption = none := by decide +kernel
    rw [hread] at hnone
    cases hnone
  allowed t := by
    match t with
    | 0 => exact rfl
    | 1 => exact rfl
    | 2 => trivial
    | 3 => exact rfl
    | t + 4 => trivial
  sources := by
    refine ⟨?_, ?_, ?_⟩
    · rintro _ ⟨t, rfl⟩ _ rfl bytes hread
      have hbytes := read_twoLives t
      rw [hread] at hbytes
      cases hbytes
      decide
    · rintro _ _ ⟨t, rfl⟩ ⟨t', rfl⟩ _ rfl ms - -
      exact (read_twoLives t).trans (read_twoLives t').symm
    · rintro _ _ ⟨t, rfl⟩ ⟨t', rfl⟩ _ _ rfl rfl a b ha hb -
      have hsame : ((moment copying oneFile twoLives t).world.disk.readText ⟨"/a.js"⟩).toOption
          = ((moment copying oneFile twoLives t').world.disk.readText ⟨"/a.js"⟩).toOption := by
        rw [readText_toOption, readText_toOption, read_twoLives, read_twoLives]
      rw [ha, hb] at hsame
      exact Option.some.inj hsame
  names _ _ _ _ := fun _ _ _ _ _ _ => rfl

/-- The general statement in the second life, which opens the store of the
first. -/
theorem cache_transparent_twoLives :
    ∃ r, (moment copying oneFile twoLives 4).register = some r ∧
      (r.compile (moment copying oneFile twoLives 4).world ⟨"/a.js"⟩ none).result.toOption
        = some "a" := by
  refine ⟨_, rfl, ?_⟩
  rcases cache_transparent premises_twoLives 4 rfl rfl with hsame | ⟨_, _, -, hmode, -⟩
  · rw [hsame]
    decide +kernel
  · cases hmode

end TransformCache.Transparency
