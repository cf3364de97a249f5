/-
A cache that was turned off stays off.

# Two flags

The configuration has a flag that says whether the cache is on, and the store
has one. What lasts is that of the store: options that are accepted and turn
the cache off set it, and so does an environment that turns it off
(`off_configure`, `off_create`), and nothing clears it (`off_apply`). So it does
not matter what is configured later.

# What is left to happen

A flush that was deferred before waits on, and finds the store off when it is
run. So in every move of a run the entries stay, the disk changes by what is
done to it from outside alone (`Move.outside`), and the tasks that wait become
fewer when they are run and never more (`Move.remaining`). No look-up finds
anything, and each compile of a file whose options are resolved calls the
engine once.
-/
import TransformCache.Proofs.Register.Persistence

namespace TransformCache

namespace Register

variable {r : Register} {w : World} {path : FilePath}

/-- With the cache off nothing is filed, and the engine is called for every file
that it has options for. -/
theorem deed_of_uncached (h : r.caching w = false) (path : FilePath) (inline : Option String) :
    (r.deed w path inline).filed = none ∧
      ∀ options, r.engine.optionsFor r.config.transform path = .ok options →
        (r.deed w path inline).calls = [(r.engine.invoke w.disk options path inline).2] := by
  unfold deed
  rw [consult_of_uncached h]
  cases r.engine.optionsFor r.config.transform path with
  | error reason => exact ⟨rfl, fun _ hoptions => by cases hoptions⟩
  | ok options =>
      refine ⟨?_, fun _ hoptions => ?_⟩
      · simp only
        unfold deedOfCall
        simp only
        split
        · rfl
        · rfl
      · cases hoptions
        exact calls_deedOfCall ..

theorem caching_of_off (h : (w.store r.store).enabled = false) : r.caching w = false := by
  unfold caching
  rw [h, Bool.and_false]

end Register

/-- Flushing a store that is off is nothing. -/
theorem World.flush_of_off {w : World} {n : Nat} (h : (w.store n).enabled = false) :
    w.flush n = w := by
  unfold flush onShelf Cache.Shelf.flush
  simp only
  rw [show (w.session.host.stores n).flush w.session.host.disk = _ from
    Cache.Store.flush_of_disabled h _]

/-- An account of a call says how the engine was called: for a file, or with the
text that was given in its place. -/
theorem Engine.call_of_invoke (e : Engine) (fs : FileSystem) (options : EngineOptions)
    (path : FilePath) (inline : Option String) :
    (e.invoke fs options path inline).2.request = { filename := path, options } ∧
      (e.invoke fs options path inline).2.inline = inline := by
  unfold invoke
  simp only
  split
  · exact ⟨rfl, rfl⟩
  · exact ⟨rfl, rfl⟩

namespace Life

open Cache (Request Shelf)
open Teardown (Call State)

variable {n : Nat} {s : State} {w : World} {m : Move} {moves : List Move}

-- ======================================================== flushes in a queue

/-- Every task that waits is one flush of a store. -/
def Queued (n : Nat) (w : World) : Prop :=
  ∀ t ∈ w.session.waiting, t.2 = [.effect (.deferredFlush n)]

theorem queued_scheduleFlush (h : Queued n w) : Queued n (w.scheduleFlush n) := by
  unfold World.scheduleFlush Shelf.ask
  simp only
  cases (w.session.host.stores n).requestFlush.2 with
  | false => exact h
  | true =>
      intro t ht
      rcases List.mem_append.1 ht with ht | ht
      · exact h t ht
      · rw [List.mem_singleton.1 ht]

/-- A compile defers nothing but a flush of its store. -/
theorem queued_compile {r : Register} (h : Queued n w) (hstore : r.store = n) (path : FilePath)
    (inline : Option String) : Queued n (r.compile w path inline).world := by
  unfold Queued
  rw [Register.compile_eq, Register.session_outcome]
  cases (r.deed w path inline).filed with
  | none => exact h
  | some rec =>
      have hfiled : Queued n (r.file w rec.ticket rec.output) := by
        unfold Register.file
        rw [hstore]
        exact queued_scheduleFlush (w := w.modifyStore n _) h
      exact hfiled

theorem Queued.batch (h : Queued n w) (queue : Nat) :
    ∃ count, w.session.batch queue
      = (List.replicate count (Request.deferredFlush n)).map fun e => [.effect e] := by
  refine ⟨(w.session.batch queue).length, ?_⟩
  rw [List.map_replicate, List.eq_replicate_iff]
  refine ⟨rfl, fun task htask => ?_⟩
  obtain ⟨t, ht, rfl⟩ := List.mem_map.1 htask
  exact h t (List.mem_filter.1 ht).1

/-- A number of deferred flushes, run one after the other. -/
def flushed (n count : Nat) (x : Shelf) : Shelf :=
  (List.replicate count (Request.deferredFlush n)).foldl (fun x e => x.act e) x

/-- What waits in a queue of flushes is run by running the flushes, and waits no
more. -/
theorem perform_queued (h : Queued n w) {queue : Nat} {actions : Turn.Task Request}
    (hactions : actions = [.runTurn queue .count] ∨ actions = [.drain queue .count]) :
    ∃ count answer, (w.perform actions).session
      = { waiting := w.session.waiting.filter (·.1 ≠ queue)
          host := (flushed n count w.session.host).reply answer } := by
  obtain ⟨count, hbatch⟩ := h.batch queue
  refine ⟨count, .count (List.replicate count (Request.deferredFlush n)).length, ?_⟩
  rcases hactions with rfl | rfl
  · exact Turn.perform_runTurn (h := Shelf.host) hbatch _
  · exact Turn.perform_drain (h := Shelf.host) hbatch _

/-- Flushes of a store that is off take no more than its mark off. -/
theorem flushed_of_off (count : Nat) :
    ∀ {x : Shelf}, (x.stores n).enabled = false →
      (flushed n count x).disk = x.disk ∧
        ∃ flushPending, (flushed n count x).stores n = { x.stores n with flushPending } := by
  induction count with
  | zero => exact fun _ => ⟨rfl, _, rfl⟩
  | succ count ih =>
      intro x hoff
      have hbegun : (x.act (.deferredFlush n)).stores n = { x.stores n with flushPending := false } :=
        if_pos rfl
      have hdisk : (x.act (.deferredFlush n)).disk = x.disk := by
        show ((((x.setStore n (x.stores n).beginFlush).stores n).flush x.disk).2) = x.disk
        rw [Shelf.stores_setStore, if_pos rfl, Cache.Store.flush_beginFlush,
          Cache.Store.flush_of_disabled hoff]
      obtain ⟨hrest, flushPending, hstore⟩ := ih (x := x.act (.deferredFlush n))
        (by rw [hbegun]; exact hoff)
      refine ⟨hrest.trans hdisk, flushPending, ?_⟩
      rw [hbegun] at hstore
      exact hstore

-- ================================================================ being off

/-- The disk after what a move does to it from outside. -/
def Move.outside (disk : FileSystem) : Move → FileSystem
  | .edit change => disk.edit change
  | .mishap place e => found disk place e
  | _ => disk

/-- The tasks that wait after a move, if none is deferred. -/
def Move.remaining (waiting : List (Nat × Turn.Task Request)) :
    Move → List (Nat × Turn.Task Request)
  | .call (.turn queue) | .drain queue => waiting.filter (·.1 ≠ queue)
  | _ => waiting

/-- The store of a register is off, and nothing waits but flushes of it. -/
structure Off (n : Nat) (s : State) : Prop where
  store : s.1.store = n
  off : (s.2.store n).enabled = false
  queued : Queued n s.2

/-- What is left alone from one state to another, with the store off in both. -/
structure Spares (n : Nat) (m : Move) (s s' : State) : Prop where
  off : Off n s'
  entries : (s'.2.store n).entries = (s.2.store n).entries
  disk : s'.2.disk = m.outside s.2.disk
  waiting : s'.2.session.waiting = m.remaining s.2.session.waiting

theorem spares_of_session {register : Register} (h : Off n s) (hstore : register.store = n)
    (hw : w.session = s.2.session) (houtside : m.outside s.2.disk = s.2.disk)
    (hremaining : m.remaining s.2.session.waiting = s.2.session.waiting) :
    Spares n m s (register, w) := by
  have hdisk : w.disk = s.2.disk := congrArg (·.host.disk) hw
  have hentries : w.store n = s.2.store n := congrArg (fun x => x.host.stores n) hw
  refine ⟨⟨hstore, ?_, ?_⟩, ?_, hdisk.trans houtside.symm, ?_⟩
  · exact (congrArg Cache.Store.enabled hentries).trans h.off
  · unfold Queued
    rw [show (register, w).2.session = s.2.session from hw]
    exact h.queued
  · exact congrArg Cache.Store.entries hentries
  · rw [hremaining]
    exact congrArg (·.waiting) hw

/-- A compile with the store off leaves the stores, the disk and the tasks alone. -/
theorem session_compile_of_off (h : Off n s) (hw : w.session = s.2.session) (path : FilePath)
    (inline : Option String) : (s.1.compile w path inline).world.session = s.2.session := by
  have hoff : (w.store s.1.store).enabled = false := by
    rw [h.store]
    exact (congrArg (fun x => (x.host.stores n).enabled) hw).trans h.off
  rw [Register.compile_eq, Register.session_outcome,
    (Register.deed_of_uncached (Register.caching_of_off hoff) path inline).1]
  exact hw

theorem spares_perform (h : Off n s) {queue : Nat} {actions : Turn.Task Request}
    (hactions : actions = [.runTurn queue .count] ∨ actions = [.drain queue .count])
    (houtside : m.outside s.2.disk = s.2.disk)
    (hremaining : m.remaining s.2.session.waiting = s.2.session.waiting.filter (·.1 ≠ queue)) :
    Spares n m s (s.1, s.2.perform actions) := by
  obtain ⟨count, answer, hsession⟩ := perform_queued h.queued hactions
  obtain ⟨hdisk, flushPending, hstore⟩ := flushed_of_off (n := n) count (x := s.2.session.host) h.off
  have hafter : (s.2.perform actions).store n = { s.2.store n with flushPending } := by
    unfold World.store
    rw [hsession]
    exact hstore
  refine ⟨⟨h.store, ?_, ?_⟩, ?_, ?_, ?_⟩
  · show ((s.2.perform actions).store n).enabled = false
    rw [hafter]
    exact h.off
  · unfold Queued
    rw [show (s.1, s.2.perform actions).2.session = _ from hsession]
    exact fun t ht => h.queued t (List.mem_filter.1 ht).1
  · show ((s.2.perform actions).store n).entries = _
    rw [hafter]
  · rw [houtside]
    unfold World.disk
    rw [show (s.1, s.2.perform actions).2.session = _ from hsession]
    exact hdisk
  · rw [hremaining, show (s.1, s.2.perform actions).2.session = _ from hsession]

theorem spares_modifyStore (h : Off n s) {f : Cache.Store → Cache.Store}
    (hoff : (f (s.2.store n)).enabled = false)
    (hentries : (f (s.2.store n)).entries = (s.2.store n).entries) {register : Register}
    (hstore : register.store = n) (messages : List Message)
    (houtside : m.outside s.2.disk = s.2.disk)
    (hremaining : m.remaining s.2.session.waiting = s.2.session.waiting) :
    Spares n m s (register, (s.2.modifyStore n f).send messages) := by
  have hself : ((s.2.modifyStore n f).send messages).store n = f (s.2.store n) :=
    World.store_modifyStore_self f
  refine ⟨⟨hstore, ?_, h.queued⟩, ?_, houtside.symm, hremaining.symm⟩
  · exact (congrArg Cache.Store.enabled hself).trans hoff
  · exact (congrArg Cache.Store.entries hself).trans hentries

/-- Whatever is done with a register whose store is off, the store stays off and
as it is, and so does the disk but for what is done to it from outside; and
nothing is deferred. -/
theorem off_apply (h : Off n s) (m : Move) : Spares n m s (m.apply s) := by
  have hregister : (m.apply s).1.store = n := (store_apply s m).trans h.store
  cases m with
  | call c =>
      cases c with
      | configure options =>
          obtain ⟨result, register, messages, off, -, hconfigure⟩ := configure_eq s.1 options
          have hafter := hconfigure s.2
          simp only [Move.apply, Call.apply, hafter] at hregister ⊢
          cases off with
          | true =>
              rw [h.store]
              exact spares_modifyStore h rfl rfl hregister messages rfl rfl
          | false => exact spares_of_session h hregister rfl rfl rfl
      | hook extensions => exact spares_of_session h hregister rfl rfl rfl
      | compile path inline =>
          exact spares_of_session h hregister (session_compile_of_off h rfl path inline) rfl rfl
      | tearDown =>
          have hafter : (s.1.tearDown s.2).2 = s.2 := by
            rcases s.1.tearDown_cases s.2 with hsame | ⟨_, _, hdone⟩
            · rw [hsame]
            · rw [hdone, h.store]
              exact World.flush_of_off h.off
          exact spares_of_session h hregister (congrArg World.session hafter) rfl rfl
      | turn queue => exact spares_perform h (.inl rfl) rfl rfl
  | load path inline =>
      cases hcompiles : compiles s.1 path with
      | true =>
          have hload := load_of_compiles hcompiles s.2 inline
          refine spares_of_session h hregister ?_ rfl rfl
          simp only [hload]
          exact session_compile_of_off (w := announced s.1 s.2 path) h rfl path inline
      | false =>
          obtain ⟨messages, hload⟩ := load_of_not_compiles hcompiles inline
          refine spares_of_session h hregister ?_ rfl rfl
          simp only [hload]
          rfl
  | edit change => exact ⟨⟨h.store, h.off, h.queued⟩, rfl, rfl, rfl⟩
  | drain queue => exact spares_perform h (.inr rfl) rfl rfl
  | flush =>
      refine spares_of_session h hregister ?_ rfl rfl
      rw [h.store, World.flush_of_off h.off]
  | mishap place e => exact ⟨⟨h.store, h.off, h.queued⟩, rfl, rfl, rfl⟩
  | limit bytes =>
      simp only [Move.apply, h.store]
      exact World.send_nil (s.2.modifyStore n _) ▸
        spares_modifyStore (m := .limit bytes) h h.off rfl h.store [] rfl rfl

/-- Over a run as in each of its moves. -/
theorem off_run (moves : List Move) :
    ∀ {s : State}, Off n s →
      Off n (run s moves) ∧
        ((run s moves).2.store n).entries = (s.2.store n).entries ∧
        (run s moves).2.disk = moves.foldl Move.outside s.2.disk ∧
        (run s moves).2.session.waiting = moves.foldl Move.remaining s.2.session.waiting := by
  induction moves with
  | nil => exact fun h => ⟨h, rfl, rfl, rfl⟩
  | cons m rest ih =>
      intro s h
      have hstep := off_apply h m
      obtain ⟨hoff, hentries, hdisk, hwaiting⟩ := ih hstep.off
      rw [hstep.entries] at hentries
      rw [hstep.disk] at hdisk
      rw [hstep.waiting] at hwaiting
      exact ⟨hoff, hentries, hdisk, hwaiting⟩

-- ====================================================== how it is turned off

/-- A register defers flushes of its store alone. -/
theorem queued_apply (hstore : s.1.store = n) (h : Queued n s.2) (m : Move) :
    Queued n (m.apply s).2 := by
  have hperform : ∀ {queue : Nat} {actions : Turn.Task Request},
      (actions = [.runTurn queue .count] ∨ actions = [.drain queue .count]) →
      Queued n (s.2.perform actions) := by
    intro queue actions hactions
    obtain ⟨count, answer, hsession⟩ := perform_queued h hactions
    unfold Queued
    rw [hsession]
    exact fun t ht => h t (List.mem_filter.1 ht).1
  cases hcompile : m.compile? s with
  | some asked =>
      obtain ⟨w, path, inline⟩ := asked
      obtain ⟨hw, happly⟩ := apply_of_compile? hcompile
      have hqueued : Queued n w := by
        unfold Queued
        rw [hw]
        exact h
      rw [happly]
      exact queued_compile hqueued hstore path inline
  | none =>
      cases m with
      | call c =>
          cases c with
          | configure options =>
              obtain ⟨result, register, messages, off, -, hconfigure⟩ := configure_eq s.1 options
              simp only [Move.apply, Call.apply, hconfigure s.2]
              cases off with
              | true => exact h
              | false => exact h
          | hook extensions => exact h
          | compile path inline => cases hcompile
          | tearDown =>
              simp only [Move.apply, Call.apply]
              rcases s.1.tearDown_cases s.2 with hsame | ⟨_, _, hdone⟩
              · rw [hsame]
                exact h
              · rw [hdone]
                exact h
          | turn queue => exact hperform (.inl rfl)
      | load path inline =>
          obtain ⟨messages, hload⟩ :=
            load_of_not_compiles (compiles_of_compile?_eq_none hcompile) inline
          simp only [Move.apply, hload]
          exact h
      | drain queue => exact hperform (.inr rfl)
      | edit change => exact h
      | flush => exact h
      | mishap place e => exact h
      | limit bytes => exact h

theorem queued_run (hstore : s.1.store = n) (h : Queued n s.2) (moves : List Move) :
    Queued n (run s moves).2 := by
  have hkeeps := run_keeps (P := fun s => s.1.store = n ∧ Queued n s.2)
    (fun s m hs => ⟨(store_apply s m).trans hs.1, queued_apply hs.1 hs.2 m⟩) moves ⟨hstore, h⟩
  exact hkeeps.2

/-- Options that are accepted and turn the cache off turn the store off. -/
theorem off_configure {options : Options} (hstore : s.1.store = n) (h : Queued n s.2)
    (hcache : options.cache = some false)
    (haccepted : (s.1.configure s.2 options).result = .ok ()) :
    Off n ((Move.call (.configure options)).apply s) := by
  refine ⟨(store_apply s _).trans hstore, ?_, queued_apply hstore h _⟩
  show ((s.1.configure s.2 options).world.store n).enabled = false
  unfold Register.configure at haccepted ⊢
  cases hmerge : s.1.config.merge options with
  | error e =>
      rw [hmerge] at haccepted
      cases haccepted
  | ok merged =>
      obtain ⟨config, messages⟩ := merged
      have hoff : config.cacheEnabled = false := by
        unfold Config.merge at hmerge
        split at hmerge
        next => cases hmerge
        next =>
          cases hmerge
          simp [hcache]
      have hdisabled : (((s.2.send messages).modifyStore n (·.disable)).store n).enabled
          = false := by
        rw [World.store_modifyStore_self]
        rfl
      simp only [hoff, hstore]
      cases options.extensions with
      | none => exact hdisabled
      | some extensions => exact hdisabled

/-- An environment that turns the cache off turns the store off. -/
theorem off_create {env : Environment} (h : Queued n w) (hdisable : env.disableCache = true)
    (table : ExtensionTable Loader) (engine : Engine) (workingDirectory : FilePath) :
    Off n (Register.create w table engine n env workingDirectory) := by
  have hdisabled : ((w.modifyStore n (·.disable)).store n).enabled = false := by
    rw [World.store_modifyStore_self]
    rfl
  unfold Register.create
  rw [hdisable]
  exact ⟨rfl, hdisabled, h⟩

theorem queued_create (h : Queued n w) (table : ExtensionTable Loader) (engine : Engine)
    (env : Environment) (workingDirectory : FilePath) :
    Queued n (Register.create w table engine n env workingDirectory).2 := by
  unfold Queued
  rcases (Register.create_cases w table engine n env workingDirectory).2 with hsame | hoff
  · rw [hsame]
    exact h
  · rw [hoff]
    exact h

-- =========================================================== main statement

/-- With the store off a compile calls the engine once, if this has options for
the file. -/
theorem invocations_of_off (h : Off n s) {path : FilePath} {inline : Option String}
    {options : EngineOptions} (hcompile : m.compile? s = some (w, path, inline))
    (hoptions : s.1.engine.optionsFor s.1.config.transform path = .ok options) :
    ∃ call : Invocation, call.request = { filename := path, options } ∧ call.inline = inline ∧
      (m.apply s).2.invocations = s.2.invocations ++ [call] := by
  obtain ⟨hw, happly⟩ := apply_of_compile? hcompile
  have hcalls : w.invocations = s.2.invocations := by
    cases m with
    | call c =>
        cases c with
        | compile path inline =>
            cases hcompile
            rfl
        | _ => cases hcompile
    | load path inline =>
        unfold Move.compile? at hcompile
        simp only at hcompile
        split at hcompile
        next =>
          cases hcompile
          rfl
        next => cases hcompile
    | _ => cases hcompile
  have hoff : (w.store s.1.store).enabled = false := by
    rw [h.store]
    exact (congrArg (fun x => (x.host.stores n).enabled) hw).trans h.off
  obtain ⟨hrequest, hinline⟩ := s.1.engine.call_of_invoke w.disk options path inline
  refine ⟨_, hrequest, hinline, ?_⟩
  rw [happly, Register.compile_eq, Register.invocations_outcome, hcalls,
    (Register.deed_of_uncached (Register.caching_of_off hoff) path inline).2 options hoptions]

/-- For every run of a register after its cache was turned off, by its
environment or by options that were accepted: the entries are those that the
store held when it was turned off, the disk is what is made of it from outside,
no flush was deferred since, no look-up is answered, and whatever is done next,
a compile of a file, or of a text in its place, calls the engine exactly once
for it if the options of the file are resolved. -/
theorem disabled_for_good (w : World) (table : ExtensionTable Loader) (engine : Engine) (n : Nat)
    (env : Environment) (workingDirectory : FilePath) (before after : List Move)
    (hwaiting : Queued n w)
    (hdisabled : env.disableCache = true ∨ ∃ earlier options,
      before = earlier ++ [.call (.configure options)] ∧ options.cache = some false ∧
        let s := run (Register.create w table engine n env workingDirectory) earlier
        (s.1.configure s.2 options).result = .ok ()) :
    let off := run (Register.create w table engine n env workingDirectory) before
    let s := run off after
    (s.2.store n).entries = (off.2.store n).entries ∧
      s.2.disk = after.foldl Move.outside off.2.disk ∧
      s.2.session.waiting = after.foldl Move.remaining off.2.session.waiting ∧
      (∀ key, (s.2.store n).lookUp key = none) ∧
      ∀ (m : Move) (v : World) (path : FilePath) (inline : Option String)
        (options : EngineOptions), m.compile? s = some (v, path, inline) →
        engine.optionsFor s.1.config.transform path = .ok options →
        ∃ call : Invocation, call.request = { filename := path, options } ∧
          call.inline = inline ∧ (m.apply s).2.invocations = s.2.invocations ++ [call] := by
  intro off s
  have hoff : Off n off := by
    rcases hdisabled with hdisable | ⟨earlier, options, rfl, hcache, haccepted⟩
    · exact (off_run before (off_create hwaiting hdisable ..)).1
    · have hlast : off = (Move.call (.configure options)).apply
          (run (Register.create w table engine n env workingDirectory) earlier) :=
        List.foldl_append
      have hqueued : Queued n (Register.create w table engine n env workingDirectory).2 :=
        queued_create hwaiting table engine env workingDirectory
      obtain ⟨-, -, hstore⟩ := register_run
        (Register.create w table engine n env workingDirectory) earlier
      rw [hlast]
      exact off_configure hstore (queued_run rfl hqueued earlier) hcache haccepted
  obtain ⟨hstill, hentries, hdisk, htasks⟩ := off_run after hoff
  have hengine : s.1.engine = engine := by
    obtain ⟨hafter, -, -⟩ := register_run off after
    obtain ⟨hbefore, -, -⟩ := register_run
      (Register.create w table engine n env workingDirectory) before
    exact hafter.trans hbefore
  refine ⟨hentries, hdisk, htasks, fun key => ?_, fun m v path inline options hm hoptions => ?_⟩
  · unfold Cache.Store.lookUp
    rw [hstill.off]
    rfl
  · rw [← hengine] at hoptions
    exact invocations_of_off hstill hm hoptions

-- ------------------------------------------------- with a flush in the queue

/-- A file is compiled, so that a flush waits, and the cache is turned off. -/
def disabling : List Move :=
  [.load ⟨"/a.js"⟩ none, .call (.configure { cache := some false })]

/-- The cache is asked for again, a turn is run, and the register torn down. -/
def reenabling : List Move :=
  [.call (.configure { cache := some true }), .call (.turn 0), .call .tearDown]

/-- The general statement where a flush waits that finds the store off. -/
theorem disabled_for_good_queued :
    Queued 0 Teardown.oneScript ∧
      let off := run Teardown.living disabling
      let s := run off reenabling
      off.2.session.waiting.length = 1 ∧ (off.2.store 0).size = 1 ∧
      s.2.session.waiting = [] ∧ s.2.disk.holds ⟨"/store"⟩ = false ∧
      s.1.config.cacheEnabled = false ∧
      ∃ call : Invocation, call.request.filename = ⟨"/a.js"⟩ ∧ call.inline = some "b" ∧
        ((Move.call (.compile ⟨"/a.js"⟩ (some "b"))).apply s).2.invocations
          = s.2.invocations ++ [call] := by
  have hwaiting : Queued 0 Teardown.oneScript := fun _ ht => by cases ht
  obtain ⟨-, hdisk, htasks, -, hcalls⟩ := disabled_for_good Teardown.oneScript ∅
    Teardown.scripts 0 {} ⟨"/"⟩ disabling reenabling hwaiting
    (.inr ⟨[.load ⟨"/a.js"⟩ none], { cache := some false }, rfl, rfl,
      toOption_eq_some.1 (by decide +kernel)⟩)
  have hdisk' : (run (run Teardown.living disabling) reenabling).2.disk
      = (run Teardown.living disabling).2.disk := hdisk
  have htasks' : (run (run Teardown.living disabling) reenabling).2.session.waiting
      = (run Teardown.living disabling).2.session.waiting.filter (·.1 ≠ 0) := htasks
  obtain ⟨call, hrequest, hinline, hcall⟩ := hcalls
    (.call (.compile ⟨"/a.js"⟩ (some "b"))) _ _ _ _ rfl rfl
  refine ⟨hwaiting, by decide +kernel, by decide +kernel, ?_, ?_, by decide +kernel,
    call, by rw [hrequest], hinline, hcall⟩
  · rw [htasks']
    exact List.eq_nil_of_length_eq_zero (by decide +kernel)
  · rw [hdisk']
    decide +kernel

end Life

end TransformCache
