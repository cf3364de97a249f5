/-
What a run of the program leaves behind, wherever it stops.

A run that compiles files loads them one after the other with what its options
come to (`setup`). If one fails the loop is left early: nothing that waits is
run, and the register is torn down. If none fails the deferred flushes are run
first. It makes no difference to the file of the store, since both end in a
flush of what the store holds then (`read_tearDown`, `filing_perform`).

So output, status and file follow from how far the loading came
(`run_of_compiling`), and `run_until_failure` says what that is: the files before the
one that failed were loaded, their code is written, and what the engine made
for them is in the file together with what was in it before.
-/
import TransformCache.Proofs.Cache.Contents
import TransformCache.Proofs.Cli.Loading

namespace TransformCache.Cli

open Cache.Store (Fileable Writable)
open Register (Recording)

variable {machine : Program.Machine} {vars : Variables} {disk : FileSystem} {globals : Globals}
  {engine : CommandEngine} {opts : Options} {config : Config} {initial : Cache.Store} {S : Setup}
  {store : FilePath} {held : Keyed Cache.Entry} {r : Register} {w : World}

-- ================================================================== the start

/-- What a run loads its files with. -/
def setup (machine : Program.Machine) (vars : Variables) (disk : FileSystem) (globals : Globals)
    (engine : CommandEngine) (opts : Options) (config : Config) : Setup where
  disk
  engine := engine.toEngine machine disk vars
  config
  hooked := opts.extensions.getD (engine.toEngine machine disk vars).extensions
  discriminator := (environment vars globals).discriminator

/-- A run begins with what its store could be loaded with. -/
theorem serves_begun {messages : List Message}
    (hmerge : (Config.initial (workingDirectory disk)).merge opts = .ok (config, messages))
    (hon : config.cacheEnabled = true) (hcache : (environment vars globals).disableCache = false)
    {count : Nat}
    (hload : (Cache.Store.new (storePath vars globals)).load disk = .ok (count, initial)) :
    let o := begun machine vars disk globals engine opts
    o.result = .ok () ∧ o.world.invocations = [] ∧
      Serves (setup machine vars disk globals engine opts config) (storePath vars globals)
        initial.entries o.register o.world := by
  obtain ⟨hresult, ⟨sent, hworld⟩, ⟨hooks, table, hregister⟩, hover⟩ :=
    begun_of_merge machine vars globals engine hmerge hon
  have hcreated : ∀ (w : World) (n : Nat), ∃ sent,
      (Register.create w ∅ (engine.toEngine machine disk vars) n (environment vars globals)
        (workingDirectory disk)).2 = w.send sent := by
    intro w n
    unfold Register.create
    rw [hcache]
    exact ⟨_, rfl⟩
  let opened := (World.ofDisk disk).addStore
    (Register.storeFor (environment vars globals) (Environment.homeDirectory vars))
  obtain ⟨first, hfirst⟩ := hcreated opened.2 opened.1
  have hopened : Cache.Shelf.build disk (Register.storeFor (environment vars globals)
      (Environment.homeDirectory vars)) = initial := by
    unfold Register.storeFor
    rw [hcache]
    show Cache.Store.openAt (storePath vars globals) disk = _
    unfold Cache.Store.openAt
    rw [hload]
  rw [hfirst, World.send_send] at hworld
  have hdisk : (begun machine vars disk globals engine opts).world.disk = disk := by
    rw [hworld]
    rfl
  have hstore : (begun machine vars disk globals engine opts).world.store
      (begun machine vars disk globals engine opts).register.store = initial := by
    rw [hworld, hregister]
    exact (World.store_addStore_self _).trans hopened
  refine ⟨hresult, congrArg World.invocations hworld, ?_⟩
  constructor
  case hooks => exact hover
  case caching => exact hon
  case disk => exact hdisk
  case held => exact ⟨false, hstore.trans (Cache.Store.eq_of_load hload)⟩
  case queued =>
    rw [hworld]
    exact fun t ht => by cases ht
  all_goals
    rw [hregister]
    rfl

-- ==================================================================== the end

/-- A store that holds entries, over a disk where they can be filed. -/
structure Filing (store : FilePath) (held : Keyed Cache.Entry) (n : Nat) (x : Cache.Shelf) :
    Prop where
  holds : ∃ flushPending, x.stores n
    = { Cache.Store.new store with entries := held, flushPending }
  fileable : Fileable store held Cache.defaultSizeLimit x.disk

/-- A flush files the entries, whatever mark the store has. -/
theorem Filing.read_flush {n : Nat} {x : Cache.Shelf} (h : Filing store held n x) :
    ((x.stores n).flush x.disk).2.read store = .ok (Cache.entriesFile held) := by
  obtain ⟨flushPending, hstore⟩ := h.holds
  rw [hstore]
  exact Cache.Store.read_of_fileable
    (s := { Cache.Store.new store with entries := held, flushPending }) rfl h.fileable

theorem filing_flushed {n : Nat} (count : Nat) :
    ∀ {x : Cache.Shelf}, Filing store held n x → Filing store held n (Life.flushed n count x) := by
  induction count with
  | zero => exact fun h => h
  | succ count ih =>
      intro x h
      obtain ⟨flushPending, hstore⟩ := h.holds
      have hbegun : (x.act (.deferredFlush n)).stores n
          = { Cache.Store.new store with entries := held, flushPending := false } := by
        refine (if_pos rfl).trans ?_
        rw [hstore]
        rfl
      have hread : (x.act (.deferredFlush n)).disk.read store = .ok (Cache.entriesFile held) := by
        show ((((x.setStore n (x.stores n).beginFlush).stores n).flush x.disk).2).read store = _
        rw [Cache.Shelf.stores_setStore, if_pos rfl, Cache.Store.flush_beginFlush]
        exact h.read_flush
      exact ih ⟨⟨false, hbegun⟩, .inl hread⟩

/-- The flushes that wait leave the entries filed, or as they can be. -/
theorem filing_perform {n : Nat} (hqueued : Life.Queued n w)
    (h : Filing store held n w.session.host) (queue : Nat) :
    Filing store held n (w.perform [.drain queue .count]).session.host := by
  have hdrain : ∃ count answer, (w.perform [.drain queue .count]).session = _ :=
    Life.perform_queued hqueued (.inr rfl)
  obtain ⟨count, answer, hsession⟩ := hdrain
  rw [hsession]
  exact ⟨(filing_flushed count h).holds, (filing_flushed count h).fileable⟩

/-- The tear down of a register files what its store holds. -/
theorem read_tearDown (hstanding : r.tornDown = false)
    (h : Filing store held r.store w.session.host) :
    (r.tearDown w).2.disk.read store = .ok (Cache.entriesFile held) ∧
      (r.tearDown w).2.invocations = w.invocations := by
  obtain ⟨-, hflushed⟩ := Teardown.tearDown_of_unmarked hstanding w
  rw [hflushed]
  exact ⟨h.read_flush, rfl⟩

-- ================================================================ a whole run

/-- A command line that compiles files with the cache on, with an engine command
that is not blank and options that are accepted. -/
structure Compiling (vars : Variables) (disk : FileSystem) (args : List String)
    (globals : Globals) (files : List FilePath) (command : String) (version : Option String)
    (engine : CommandEngine) (opts : Options) (config : Config) : Prop where
  request : read args = .ok ⟨globals, .compile files command version⟩
  engine : CommandEngine.parse command version = .ok engine
  options : options disk globals = .ok opts
  config : ∃ messages, (Config.initial (workingDirectory disk)).merge opts = .ok (config, messages)
  caching : (environment vars globals).disableCache = false ∧ opts.cache ≠ some false

/-- However verbose it is, a run that compiles files ends as they do. -/
theorem run_of_request (machine : Program.Machine) (vars : Variables) (disk : FileSystem)
    {args : List String} {files : List FilePath} {command : String} {version : Option String}
    (hrequest : read args = .ok ⟨globals, .compile files command version⟩) :
    ∃ messages, run machine vars disk args
      = { compile machine vars disk globals files command version with messages } := by
  unfold run perform
  rw [hrequest]
  simp only
  cases globals.verbose with
  | true => exact ⟨_, rfl⟩
  | false => exact ⟨_, rfl⟩

/-- A run whose options are accepted goes on with its files. -/
theorem compileWith_of_begun (files : List FilePath)
    (hresult : (begun machine vars disk globals engine opts).result = .ok ()) :
    compileWith machine vars disk globals engine opts files
      = match loadFiles (begun machine vars disk globals engine opts).register
            (begun machine vars disk globals engine opts).world (workingDirectory disk) ""
            files with
        | (.error reason, output, r, w) => endedIn (r.tearDown w).2 output (.error reason)
        | (.ok (), output, r, w) =>
          endedIn (r.tearDown (w.perform [.drain 0 .count])).2 output (.ok ()) := by
  unfold compileWith
  unfold begun at hresult ⊢
  dsimp only at hresult ⊢
  rewrite [hresult]
  rfl

/-- The loading of its files decides how a run ends. -/
theorem compileWith_of_serves {files : List FilePath} {o : Outcome Unit} {done : List Loaded}
    {failure : Option Failure} (ho : o = begun machine vars disk globals engine opts)
    (hresult : o.result = .ok ()) (hquiet : o.world.invocations = []) (hdisk : S.disk = disk)
    (hserves : Serves S store held o.register o.world)
    (hloads : S.loads held files = (done, failure))
    (hfileable : Fileable store (kept held done) Cache.defaultSizeLimit disk) :
    let ended := compileWith machine vars disk globals engine opts files
    ended.status = (if failure.isSome then failureStatus else 0) ∧
      ended.output = written done ∧
      ended.disk.read store = .ok (Cache.entriesFile (kept held done)) ∧
      (failure = none → (∀ l ∈ done, l.filed = none) → ended.calls = []) := by
  subst ho
  intro ended
  have hended : ended = _ := compileWith_of_begun files hresult
  obtain ⟨hafter, houtput, hkept, hcalls⟩ := loadFiles_serves files "" hserves
  rw [hdisk] at hafter houtput hkept hcalls
  simp only [hloads] at hafter houtput hkept hcalls
  generalize loadFiles _ _ (workingDirectory disk) "" files = after at *
  obtain ⟨result, output, r, w⟩ := after
  rw [String.empty_append] at houtput
  have hplace : w.session.host.disk = disk := hkept.disk.trans hdisk
  have hfiling : Filing store (kept held done) r.store w.session.host :=
    ⟨hkept.held, hplace ▸ hfileable⟩
  rw [hended]
  subst hafter houtput
  cases failure with
  | none =>
      have hdrained := filing_perform hkept.queued hfiling 0
      obtain ⟨hread, hinvocations⟩ := read_tearDown hkept.standing hdrained
      refine ⟨rfl, rfl, hread, fun _ hfiled => ?_⟩
      exact hinvocations.trans ((hcalls rfl hfiled).trans hquiet)
  | some reason =>
      obtain ⟨hread, -⟩ := read_tearDown hkept.standing hfiling
      exact ⟨rfl, rfl, hread, fun hnone => by cases hnone⟩

variable {args : List String} {files : List FilePath} {command : String} {version : Option String}

theorem Compiling.begun
    (h : Compiling vars disk args globals files command version engine opts config) {count : Nat}
    (hload : (Cache.Store.new (storePath vars globals)).load disk = .ok (count, initial)) :
    let o := Cli.begun machine vars disk globals engine opts
    o.result = .ok () ∧ o.world.invocations = [] ∧
      Serves (setup machine vars disk globals engine opts config) (storePath vars globals)
        initial.entries o.register o.world := by
  obtain ⟨messages, hmerge⟩ := h.config
  refine serves_begun hmerge ?_ h.caching.1 hload
  have hoption := h.caching.2
  unfold Config.merge at hmerge
  split at hmerge
  next => cases hmerge
  next =>
    cases hmerge
    simp [Config.initial, hoption]

/-- The loading of its files decides how the program ends. -/
theorem run_of_compiling
    (h : Compiling vars disk args globals files command version engine opts config) {count : Nat}
    (hload : (Cache.Store.new (storePath vars globals)).load disk = .ok (count, initial))
    {done : List Loaded} {failure : Option Failure}
    (hloads : (setup machine vars disk globals engine opts config).loads initial.entries files
      = (done, failure))
    (hfileable : Fileable (storePath vars globals) (kept initial.entries done)
      Cache.defaultSizeLimit disk) :
    let ended := run machine vars disk args
    ended.status = (if failure.isSome then failureStatus else 0) ∧
      ended.output = written done ∧
      ended.disk.read (storePath vars globals)
        = .ok (Cache.entriesFile (kept initial.entries done)) ∧
      (failure = none → (∀ l ∈ done, l.filed = none) → ended.calls = []) := by
  obtain ⟨messages, hrun⟩ := run_of_request machine vars disk h.request
  obtain ⟨hresult, hquiet, hserves⟩ := h.begun hload
  have hcompile : compile machine vars disk globals files command version
      = compileWith machine vars disk globals engine opts files := by
    unfold compile
    rw [h.engine, h.options]
  rw [hrun, hcompile]
  exact compileWith_of_serves rfl hresult hquiet rfl hserves hloads hfileable

-- ======================================================== what comes back

/-- A stamp that is taken has 64 bits. -/
theorem fits_currentStamp {mode : Mode} {path : FilePath} {stamp : Cache.Stamp}
    (h : mode.currentStamp disk path = .ok stamp) : stamp.Fits := by
  cases mode with
  | checksum root project =>
      obtain ⟨digest, -, rfl⟩ := map_eq_ok.1 h
      trivial
  | mtime =>
      obtain ⟨milliseconds, htime, rfl⟩ := map_eq_ok.1 h
      unfold fileTime at htime
      split at htime
      next microseconds _ =>
        cases htime
        have hlow := Int.le_bmod (x := microseconds.tdiv 1000) (m := timeRange) (by decide)
        have hhigh := Int.bmod_lt (x := microseconds.tdiv 1000) (m := timeRange) (by decide)
        unfold Cache.Stamp.Fits Cache.timeBound
        unfold timeRange at hlow hhigh ⊢
        omega
      next => cases htime

/-- A command makes no maps. -/
theorem map_of_invoke {fs : FileSystem} {options : EngineOptions} {path : FilePath}
    {output : Output}
    (h : ((engine.toEngine machine disk vars).invoke fs options path none).1 = .ok output) :
    output.map = none := by
  unfold Engine.invoke at h
  simp only at h
  split at h
  · cases h
  · simp only [CommandEngine.toEngine] at h
    unfold CommandEngine.transform at h
    simp only at h
    split at h
    · cases h
    · split at h
      · cases h
      · cases h
      · unfold CommandEngine.outcome at h
        split at h
        · split at h
          · cases h
            rfl
          · cases h
        · cases h

/-- What a command makes of a file comes back from a store. -/
theorem lasting_of_load (hS : S = setup machine vars disk globals engine opts config)
    {file : FilePath} {l : Loaded} (h : S.load held file = .ok l) {rec : Recording}
    (hfiled : l.filed = some rec) : rec.entry.Lasting := by
  subst hS
  have hbecomes := Setup.becomes_of_load h
  cases hbecomes with
  | ignored => cases hfiled
  | answered => cases hfiled
  | made hcompiles _ hinvoke =>
      cases hfiled
      have hmap := map_of_invoke hinvoke
      obtain ⟨-, hstamp⟩ := Setup.ticket_eq_ok.1 hcompiles.ticketed
      exact Cache.Entry.lasting_of_map_eq_none (fits_currentStamp hstamp) hmap

/-- All that is loaded is loaded of some file. -/
theorem exists_load_of_mem_loads (files : List FilePath) :
    ∀ held, ∀ l ∈ (S.loads held files).1, ∃ held' file, S.load held' file = .ok l := by
  induction files with
  | nil => exact fun _ _ hl => by cases hl
  | cons file rest ih =>
      intro held l hl
      cases hload : S.load held file with
      | error reason =>
          rw [Setup.loads_of_error hload] at hl
          cases hl
      | ok first =>
          rw [Setup.loads_of_ok hload] at hl
          rcases List.mem_cons.1 hl with rfl | hl
          · exact ⟨held, file, hload⟩
          · exact ih _ l hl

/-- What holds of entries, and of all that last, holds of those that are kept. -/
theorem forall_kept (hS : S = setup machine vars disk globals engine opts config)
    {P : Cache.Entry → Prop} (hlasting : ∀ e : Cache.Entry, e.Lasting → P e)
    (files : List FilePath) :
    ∀ {held : Keyed Cache.Entry}, (∀ key e, held.get? key = some e → P e) →
      ∀ key e, (kept held (S.loads held files).1).get? key = some e → P e := by
  induction files with
  | nil => exact fun h => h
  | cons file rest ih =>
      intro held h
      cases hload : S.load held file with
      | error reason =>
          rw [Setup.loads_of_error hload]
          exact h
      | ok l =>
          rw [Setup.loads_of_ok hload]
          have hinto : ∀ key e, (l.into held).get? key = some e → P e := by
            intro key e he
            unfold Loaded.into at he
            cases hfiled : l.filed with
            | none =>
                rw [hfiled] at he
                exact h key e he
            | some rec =>
                rw [hfiled] at he
                simp only [Keyed.get?_insert] at he
                split at he
                · cases he
                  exact hlasting _ (lasting_of_load hS hload hfiled)
                · exact h key e he
          exact ih hinto

/-- Entries that last and those that are entered last together. -/
theorem lasting_kept (hS : S = setup machine vars disk globals engine opts config)
    (files : List FilePath) (h : ∀ key e, held.get? key = some e → e.Lasting) :
    ∀ key e, (kept held (S.loads held files).1).get? key = some e → e.Lasting :=
  forall_kept hS (fun _ he => he) files h

-- =========================================================== main statement

/-- The files before the one that fails are loaded, and if none fails all are. -/
theorem loads_stops (S : Setup) (files : List FilePath) :
    ∀ held : Keyed Cache.Entry,
      let loads := S.loads held files
      S.loads held (files.take loads.1.length) = (loads.1, none) ∧
        match loads.2 with
        | none => loads.1.length = files.length
        | some reason => ∃ file, files[loads.1.length]? = some file ∧
            S.load (kept held loads.1) file = .error reason := by
  induction files with
  | nil => exact fun held => ⟨rfl, rfl⟩
  | cons file rest ih =>
      intro held
      cases hload : S.load held file with
      | error reason =>
          rw [Setup.loads_of_error hload]
          exact ⟨rfl, file, rfl, hload⟩
      | ok l =>
          obtain ⟨htaken, hstop⟩ := ih (l.into held)
          rw [Setup.loads_of_ok hload]
          refine ⟨?_, ?_⟩
          · simp only [List.length_cons, List.take_succ_cons]
            rw [Setup.loads_of_ok hload, htaken]
          · simp only
            split at hstop
            next => exact congrArg (· + 1) hstop
            next => exact hstop

/-- A run that compiles files writes the code of all that come before the first
that fails, and the file of its store holds what it held, updated in order by
what the engine made of these. It tells by its status whether one failed. A store
that is loaded from the file has these entries, exactly if all of them come back
as they were; and those that the run entered do. -/
theorem run_until_failure
    (h : Compiling vars disk args globals files command version engine opts config) {count : Nat}
    (hload : (Cache.Store.new (storePath vars globals)).load disk = .ok (count, initial))
    (hwhole : ∀ key entry, initial.entries.get? key = some entry →
      ∀ map ∈ entry.map, map.Integral)
    (hwritable : Writable (storePath vars globals) disk)
    (hsize : (Cache.entriesFile (kept initial.entries
      ((setup machine vars disk globals engine opts config).loads initial.entries files).1)).length
        ≤ Cache.defaultSizeLimit) :
    let S := setup machine vars disk globals engine opts config
    let done := (S.loads initial.entries files).1
    let entries := kept initial.entries done
    let ended := run machine vars disk args
    S.loads initial.entries (files.take done.length) = (done, none) ∧
      (match (S.loads initial.entries files).2 with
        | none => done.length = files.length ∧ ended.status = 0
        | some reason => (∃ file, files[done.length]? = some file ∧
            S.load entries file = .error reason) ∧ ended.status = 2) ∧
      ended.output = written done ∧
      ended.disk.read (storePath vars globals) = .ok (Cache.entriesFile entries) ∧
      ((Cache.Store.new (storePath vars globals)).load ended.disk
          = .ok (entries.size, { initial with entries })
        ↔ ∀ key e, entries.get? key = some e → e.Lasting) ∧
      ∀ l ∈ done, ∀ rec ∈ l.filed, rec.entry.Lasting := by
  intro S done entries ended
  obtain ⟨hstatus, houtput, hread, -⟩ := run_of_compiling h hload rfl (.inr ⟨hwritable, hsize⟩)
  obtain ⟨htaken, hstop⟩ := loads_stops S files initial.entries
  have hinitial : ∀ key e, initial.entries.get? key = some e → e.Plain := by
    intro key e he
    refine Cache.Entry.Legible.plain ?_ (hwhole key e he)
    rcases Cache.Store.load_eq_ok hload with ⟨loaded, ⟨file, -, hparse⟩, -, rfl⟩ | ⟨-, -, rfl⟩
    · exact Cache.legible_of_parseEntries hparse he
    · cases he
  have hplain : ∀ key e, entries.get? key = some e → e.Plain :=
    forall_kept rfl (fun e he => he.plain) files hinitial
  refine ⟨htaken, ?_, houtput, hread, ?_, fun l hl rec hrec => ?_⟩
  · split at hstop
    next hnone =>
      rw [hnone] at hstatus
      exact ⟨hstop, hstatus⟩
    next reason hsome =>
      rw [hsome] at hstatus
      exact ⟨hstop, hstatus⟩
  · rw [← Cache.parseEntries_eq_ok_iff_lasting hplain, Cache.Store.eq_of_load hload]
    exact Cache.Store.load_eq_iff_of_read (s := Cache.Store.new _) hread
  · obtain ⟨held, file, hfile⟩ := exists_load_of_mem_loads files initial.entries l hl
    exact lasting_of_load rfl hfile hrec

-- ------------------------------------- a file that nothing is there to load

/-- An entry of another file. -/
def storedBefore : Keyed Cache.Entry :=
  (∅ : Keyed Cache.Entry).insert "other" { code := "old", map := none, stamp := .mtime 1 }

/-- A script, and a store that has the entry. -/
def halfLoadable : FileSystem :=
  (FileSystem.empty.set ["a.js"] (.file (Utf8.encode "let a;") 5000)).set
    ["cache.json"] (.file (Cache.entriesFile storedBefore) 5000)

def halfLoadableArgs : List String :=
  ["--cache-path", "/cache.json", "compile", "--engine", "cat", "a.js", "b.txt"]

/-- What is loaded of the script and a file with another extension. -/
def halfLoaded : List Loaded × Option Failure :=
  (setup Program.small (fun _ => none) halfLoadable { cachePath := some ⟨"/cache.json"⟩ }
      ⟨"cat", [], "cat"⟩ {} (.initial (workingDirectory halfLoadable))).loads storedBefore
    [⟨"a.js"⟩, ⟨"b.txt"⟩]

/-- The general statement for these. -/
theorem run_until_failure_halfLoadable :
    Compiling (fun _ => none) halfLoadable halfLoadableArgs { cachePath := some ⟨"/cache.json"⟩ }
        [⟨"a.js"⟩, ⟨"b.txt"⟩] "cat" none ⟨"cat", [], "cat"⟩ {}
        (.initial (workingDirectory halfLoadable)) ∧
      let ended := run Program.small (fun _ => none) halfLoadable halfLoadableArgs
      ended.status = 2 ∧ ended.output = "let a;\n" ∧
        ∃ s, (Cache.Store.new ⟨"/cache.json"⟩).load ended.disk = .ok (2, s) ∧
          (s.entries.get? "other").isSome = true := by
  have hcompiling : Compiling (fun _ => none) halfLoadable halfLoadableArgs
      { cachePath := some ⟨"/cache.json"⟩ } [⟨"a.js"⟩, ⟨"b.txt"⟩] "cat" none ⟨"cat", [], "cat"⟩ {}
      (.initial (workingDirectory halfLoadable)) := {
    request := toOption_eq_some.1 (by decide +kernel)
    engine := toOption_eq_some.1 (by decide +kernel)
    options := by
      have hnone : halfLoadable.holds defaultConfig = false := by decide +kernel
      simp only [options, hnone, Bool.false_eq_true, if_false]
    config := ⟨_, rfl⟩
    caching := ⟨by decide +kernel, by decide⟩ }
  have hlasting : ∀ key e, storedBefore.get? key = some e → e.map = none ∧ e.Lasting := by
    intro key e he
    unfold storedBefore at he
    rw [Keyed.get?_insert] at he
    split at he
    · cases he
      exact ⟨rfl, Cache.Entry.lasting_of_map_eq_none (by decide) rfl⟩
    · cases he
  have hstored : Cache.Store.Stored halfLoadable ⟨"/cache.json"⟩ storedBefore :=
    ⟨_, toOption_eq_some.1 (by decide +kernel),
      Cache.parseEntries_of_lasting fun key e he => (hlasting key e he).2⟩
  have hsize : (Cache.entriesFile (kept storedBefore halfLoaded.1)).length
      ≤ Cache.defaultSizeLimit := by decide +kernel
  obtain ⟨-, hstop, houtput, -, hload, -⟩ := run_until_failure hcompiling
    (Cache.Store.load_of_stored (s := Cache.Store.new ⟨"/cache.json"⟩) hstored)
    (fun key e he map hmap => by rw [(hlasting key e he).1] at hmap; cases hmap)
    (toOption_eq_some.1 (by decide +kernel)) hsize
  have hloads : halfLoaded.2.isSome = true ∧ written halfLoaded.1 = "let a;\n" := by
    decide +kernel
  have hentries : (kept storedBefore halfLoaded.1).size = 2 ∧
      ((kept storedBefore halfLoaded.1).get? "other").isSome = true := by decide +kernel
  refine ⟨hcompiling, ?_, houtput.trans hloads.2,
    { Cache.Store.new ⟨"/cache.json"⟩ with entries := kept storedBefore halfLoaded.1 },
    (hload.2 (lasting_kept rfl _ fun key e he => (hlasting key e he).2)).trans ?_, hentries.2⟩
  · split at hstop
    next hnone =>
      have hnone' : halfLoaded.2 = none := hnone
      rw [hnone'] at hloads
      cases hloads.1
    next => exact hstop.2
  · exact congrArg (fun n => Except.ok (n, _)) hentries.1

-- --------------------------------------- a store that is lost when it is filed

/-- A store with an entry whose map has the key of a text behind another one. -/
def unsortedStore : String :=
  "\x7b\"k\":\x7b\"code\":\"x\",\"mtime\":1," ++
    "\"map\":\x7b\"a\":1,\"$serde_json::private::RawValue\":7\x7d\x7d\x7d"

/-- A script, and this store. -/
def unsorted : FileSystem :=
  (FileSystem.empty.set ["a.js"] (.file (Utf8.encode "let a;") 5000)).set
    ["cache.json"] (.file (Utf8.encode unsortedStore) 5000)

/-- It is loaded, and its numbers are whole. A run that fails at its second file leaves
it so that it cannot be loaded again. -/
theorem run_unsorted_loses :
    (∃ count initial, (Cache.Store.new ⟨"/cache.json"⟩).load unsorted = .ok (count, initial) ∧
        ∀ key entry, initial.entries.get? key = some entry → ∀ map ∈ entry.map, map.Integral) ∧
      let ended := run Program.small (fun _ => none) unsorted halfLoadableArgs
      ended.status = 2 ∧ ended.output = "let a;\n" ∧
        ∀ loaded, (Cache.Store.new ⟨"/cache.json"⟩).load ended.disk ≠ .ok loaded := by
  have hloads : ((Cache.Store.new ⟨"/cache.json"⟩).load unsorted).toOption.any
      (fun found => decide (∀ m ∈ found.2.entries.members, ∀ map ∈ m.2.map, map.Integral))
        = true := by decide +kernel
  have hfails : ((Cache.Store.new ⟨"/cache.json"⟩).load
      (run Program.small (fun _ => none) unsorted halfLoadableArgs).disk).toBool = false := by
    decide +kernel
  obtain ⟨⟨count, initial⟩, hload, hwhole⟩ := (Option.any_eq_true _ _).1 hloads
  refine ⟨⟨count, initial, toOption_eq_some.1 hload,
    Keyed.forall_members_iff.1 (of_decide_eq_true hwhole)⟩, by decide +kernel, by decide +kernel,
    fun loaded hloaded => ?_⟩
  rw [hloaded] at hfails
  cases hfails

end TransformCache.Cli
