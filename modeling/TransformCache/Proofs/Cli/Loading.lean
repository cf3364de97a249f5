/-
What loading files comes to, in a run of the program.

# Without a register

`Setup` is all that a run loads files with, and `Setup.load` is what becomes of
a file: its code, and what the engine made if it was called, to be entered in
the store. It is said of the entries that the store holds, with no register, no
world and no queue in it. Files are loaded one after the other until one fails
(`Setup.loads`).

A file that is loaded was ignored, or answered from the entries, or made by the
engine (`Becomes`). What it takes to be answered, or to be ignored, is all in
the setup and the one entry (`load_of_compiles`, `load_of_ignored`).

# With one

A register `Serves` a setup while its store holds given entries. Then it loads
a file as the setup does, and serves the setup with the entries after that
(`Serves.load`), so a run writes what is loaded and is left with what is entered
(`loadFiles_serves`). Nothing of it reaches the disk: what it defers is a flush.
-/
import TransformCache.Proofs.Cache.Saving
import TransformCache.Proofs.Cli.SourceRoot
import TransformCache.Proofs.Register.Disabling

namespace TransformCache.Cli

open Register (Recording Ticket)

-- ============================================================ what is loaded

/-- What files are loaded with, apart from the entries of the store. -/
structure Setup where
  disk : FileSystem
  engine : Engine
  config : Config
  /-- The extensions that are hooked. -/
  hooked : List String
  discriminator : Option String

/-- What became of a file. -/
structure Loaded where
  code : String
  /-- What the engine made, if it was called, and what it is to be filed under. -/
  filed : Option Recording := none

/-- Entries with what a file adds to them. -/
def Loaded.into (l : Loaded) (held : Keyed Cache.Entry) : Keyed Cache.Entry :=
  match l.filed with
  | some rec => held.insert rec.ticket.key rec.entry
  | none => held

/-- Entries with what files add to them, in order. -/
def kept (held : Keyed Cache.Entry) (done : List Loaded) : Keyed Cache.Entry :=
  done.foldl (fun held l => l.into held) held

/-- The codes of files as they are written, in order. -/
def written (done : List Loaded) : String := String.join (done.map fun l => printed l.code)

theorem written_cons (l : Loaded) (done : List Loaded) :
    written (l :: done) = printed l.code ++ written done := by
  unfold written
  rw [List.map_cons, String.join_cons]

namespace Setup

/-- The key and the stamp of a file. -/
def ticket (S : Setup) (options : EngineOptions) (path : FilePath) : Except Error Ticket :=
  match CacheKey.build (if S.config.mode.isRelocatable then S.config.transform else options) path
      S.config.mode S.engine.version S.discriminator with
  | .error e => .error e
  | .ok key =>
    match S.config.mode.currentStamp S.disk path with
    | .error e => .error e
    | .ok stamp => .ok ⟨key, stamp⟩

/-- A file that is compiled: the entry that holds for it, or what the engine
makes. -/
def compile (S : Setup) (held : Keyed Cache.Entry) (path : FilePath) : Except Error Loaded :=
  match S.engine.optionsFor S.config.transform path with
  | .error reason => .error (.transform reason)
  | .ok options =>
    match S.ticket options path with
    | .error e => .error e
    | .ok t =>
      match (held.get? t.key).filter (·.holds t.stamp) with
      | some entry => .ok { code := entry.code }
      | none =>
        match (S.engine.invoke S.disk options path none).1 with
        | .error reason => .error (.transform reason)
        | .ok output => .ok { code := output.code, filed := some ⟨t, output⟩ }

/-- A file under its absolute path: it has to have a loader, and is handed over as
it is if it is ignored. -/
def loadAt (S : Setup) (held : Keyed Cache.Entry) (path : FilePath) : Except Error Loaded :=
  if ExtensionTable.extensionOf path ∈ S.hooked then
    if S.config.filter.ignores path then ({ code := · }) <$> unchangedCode S.disk path none
    else S.compile held path
  else .error (.load (.noLoader (ExtensionTable.extensionOf path) path))

/-- A file as it is named on the command line. -/
def load (S : Setup) (held : Keyed Cache.Entry) (file : FilePath) : Except Failure Loaded :=
  match FilePath.absolute? (workingDirectory S.disk) file with
  | none => .error .noPath
  | some path =>
    match S.loadAt held path with
    | .ok loaded => .ok loaded
    | .error e => .error (.register e)

/-- Files until one fails, and why it fails. -/
def loads (S : Setup) (held : Keyed Cache.Entry) : List FilePath → List Loaded × Option Failure
  | [] => ([], none)
  | file :: rest =>
    match S.load held file with
    | .error reason => ([], some reason)
    | .ok loaded => (loaded :: (S.loads (loaded.into held) rest).1,
        (S.loads (loaded.into held) rest).2)

variable {S : Setup} {held : Keyed Cache.Entry} {file : FilePath} {l : Loaded}

/-- A ticket is the key and the stamp, and there is one if there are both. -/
theorem ticket_eq_ok {options : EngineOptions} {path : FilePath} {t : Ticket} :
    S.ticket options path = .ok t ↔
      CacheKey.build (if S.config.mode.isRelocatable then S.config.transform else options) path
          S.config.mode S.engine.version S.discriminator = .ok t.key ∧
        S.config.mode.currentStamp S.disk path = .ok t.stamp := by
  unfold ticket
  constructor
  · intro h
    split at h
    next => cases h
    next key hkey =>
      split at h
      next => cases h
      next stamp hstamp =>
        cases h
        exact ⟨hkey, hstamp⟩
  · rintro ⟨hkey, hstamp⟩
    rw [hkey]
    simp only
    rw [hstamp]

theorem loads_of_error {reason : Failure} (h : S.load held file = .error reason)
    (rest : List FilePath) : S.loads held (file :: rest) = ([], some reason) := by
  rw [loads, h]

theorem loads_of_ok (h : S.load held file = .ok l) (rest : List FilePath) :
    S.loads held (file :: rest)
      = (l :: (S.loads (l.into held) rest).1, (S.loads (l.into held) rest).2) := by
  rw [loads, h]

-- ---------------------------------------------------------- what becomes of it

/-- A file that is compiled: its path, its options and its ticket. -/
structure Compiles (S : Setup) (file path : FilePath) (options : EngineOptions) (t : Ticket) :
    Prop where
  absolute : FilePath.absolute? (workingDirectory S.disk) file = some path
  hooked : ExtensionTable.extensionOf path ∈ S.hooked
  accepted : S.config.filter.ignores path = false
  resolved : S.engine.optionsFor S.config.transform path = .ok options
  ticketed : S.ticket options path = .ok t

/-- What can become of a file that is loaded. -/
inductive Becomes (S : Setup) (held : Keyed Cache.Entry) (file : FilePath) : Loaded → Prop
  | ignored {path : FilePath} {code : String}
      (hpath : FilePath.absolute? (workingDirectory S.disk) file = some path)
      (hhooked : ExtensionTable.extensionOf path ∈ S.hooked)
      (hignored : S.config.filter.ignores path = true)
      (hcode : unchangedCode S.disk path none = .ok code) : Becomes S held file { code }
  | answered {path : FilePath} {options : EngineOptions} {t : Ticket} {entry : Cache.Entry}
      (hcompiles : S.Compiles file path options t) (hentry : held.get? t.key = some entry)
      (hstamp : entry.stamp = t.stamp) : Becomes S held file { code := entry.code }
  | made {path : FilePath} {options : EngineOptions} {t : Ticket} {output : Output}
      (hcompiles : S.Compiles file path options t)
      (hentry : ∀ entry, held.get? t.key = some entry → entry.stamp ≠ t.stamp)
      (hinvoke : (S.engine.invoke S.disk options path none).1 = .ok output) :
      Becomes S held file { code := output.code, filed := some ⟨t, output⟩ }

theorem becomes_of_load (h : S.load held file = .ok l) : S.Becomes held file l := by
  unfold load at h
  split at h
  next => cases h
  next path hpath =>
    split at h
    next loaded hload =>
      cases h
      unfold loadAt at hload
      split at hload
      next hhooked =>
        split at hload
        next hignored =>
          obtain ⟨code, hcode, rfl⟩ := map_eq_ok.1 hload
          exact .ignored hpath hhooked hignored hcode
        next haccepted =>
          unfold compile at hload
          split at hload
          next => cases hload
          next options hoptions =>
            split at hload
            next => cases hload
            next t hticket =>
              have hcompiles : S.Compiles file path options t :=
                ⟨hpath, hhooked, Bool.of_not_eq_true haccepted, hoptions, hticket⟩
              split at hload
              next entry hentry =>
                cases hload
                obtain ⟨hentry, hholds⟩ := Option.filter_eq_some_iff.1 hentry
                exact .answered hcompiles hentry (of_decide_eq_true hholds)
              next hnone =>
                split at hload
                next => cases hload
                next output hinvoke =>
                  cases hload
                  refine .made hcompiles (fun entry hentry hstamp => ?_) hinvoke
                  have hholds : entry.holds t.stamp = true := decide_eq_true hstamp
                  rw [hentry, Option.filter_some, if_pos hholds] at hnone
                  cases hnone
      next => cases hload
    next => cases h

/-- A file that is ignored is loaded as it is, whatever is held. -/
theorem load_of_ignored {path : FilePath} {code : String}
    (hpath : FilePath.absolute? (workingDirectory S.disk) file = some path)
    (hhooked : ExtensionTable.extensionOf path ∈ S.hooked)
    (hignored : S.config.filter.ignores path = true)
    (hcode : unchangedCode S.disk path none = .ok code) : S.load held file = .ok { code } := by
  unfold load
  rw [hpath]
  unfold loadAt
  simp only [if_pos hhooked, hignored, if_true, hcode]
  rfl

/-- An entry that holds answers the file. -/
theorem load_of_compiles {path : FilePath} {options : EngineOptions} {t : Ticket}
    {entry : Cache.Entry} (h : S.Compiles file path options t)
    (hentry : held.get? t.key = some entry) (hstamp : entry.stamp = t.stamp) :
    S.load held file = .ok { code := entry.code } := by
  have hholds : entry.holds t.stamp = true := decide_eq_true hstamp
  have hcompile : S.compile held path = .ok { code := entry.code } := by
    unfold compile
    simp only [h.resolved, h.ticketed, hentry, Option.filter_some, if_pos hholds]
  unfold load
  rw [h.absolute]
  unfold loadAt
  simp only [if_pos h.hooked, h.accepted, Bool.false_eq_true, if_false, hcompile]

end Setup

-- ============================================================== one register

variable {S : Setup} {store path : FilePath} {held : Keyed Cache.Entry} {r : Register} {w : World}

/-- A register that loads files with a setup, in a world where its store, in the
file at a path, holds given entries. -/
structure Serves (S : Setup) (store : FilePath) (held : Keyed Cache.Entry) (r : Register)
    (w : World) : Prop where
  hooks : Register.Over ∅ S.hooked r
  engine : r.engine = S.engine
  config : r.config = S.config
  discriminator : r.env.discriminator = S.discriminator
  caching : S.config.cacheEnabled = true
  standing : r.tornDown = false
  disk : w.disk = S.disk
  held : ∃ flushPending, w.store r.store
    = { Cache.Store.new store with entries := held, flushPending }
  queued : Life.Queued r.store w

theorem Serves.send (h : Serves S store held r w) (messages : List Message) :
    Serves S store held r (w.send messages) :=
  ⟨h.hooks, h.engine, h.config, h.discriminator, h.caching, h.standing, h.disk, h.held, h.queued⟩

/-- What is compiled, and the deed of a register that comes to the same. -/
inductive Matches : Except Error Loaded → Register.Deed → Prop
  | failed {e : Error} {d : Register.Deed} (hresult : d.result = .error e)
      (hfiled : d.filed = none) : Matches (.error e) d
  | done {l : Loaded} {d : Register.Deed} (hresult : d.result = .ok l.code)
      (hfiled : d.filed = l.filed) (hquiet : l.filed = none → d.calls = []) : Matches (.ok l) d

/-- What is loaded, and the outcome of a load that comes to the same and leaves
the register serving the setup. -/
inductive Loading (S : Setup) (store : FilePath) (held : Keyed Cache.Entry) (w : World)
    (path : FilePath) : Except Error Loaded → Outcome Handover → Prop
  | failed {e : Error} {o : Outcome Handover} (hresult : o.result = .error e)
      (hserves : Serves S store held o.register o.world) : Loading S store held w path (.error e) o
  | done {l : Loaded} {o : Outcome Handover} (hresult : o.result = .ok ⟨path, l.code⟩)
      (hserves : Serves S store (l.into held) o.register o.world)
      (hquiet : l.filed = none → o.world.invocations = w.invocations) :
      Loading S store held w path (.ok l) o

theorem Serves.consult_eq (h : Serves S store held r w) (path : FilePath) :
    r.consult w path
      = match S.engine.optionsFor S.config.transform path with
        | .error reason => .error (.transform reason)
        | .ok options =>
          match S.ticket options path with
          | .error e => .error e
          | .ok t =>
            match Verdict.of (held.get? t.key) t.stamp with
            | .hit entry => .ok (.answered entry)
            | .absent => .ok (.unanswered options (some t) false)
            | .stale => .ok (.unanswered options (some t) true) := by
  obtain ⟨flushPending, hstore⟩ := h.held
  have hcaching : r.caching w = true := by
    unfold Register.caching
    rw [hstore, h.config, h.caching]
    rfl
  have hlookUp : ∀ key, (w.store r.store).lookUp key = held.get? key := fun key => by
    rw [hstore]
    rfl
  have hticket : ∀ options, r.ticket w options path = S.ticket options path := fun options => by
    unfold Register.ticket Setup.ticket Register.keyOptions
    rewrite [h.config, h.engine, h.discriminator, h.disk]
    rfl
  have hverdict : ∀ t : Ticket, Verdict.of ((w.store r.store).lookUp t.key) t.stamp
      = Verdict.of (held.get? t.key) t.stamp := fun t => by rw [hlookUp]
  unfold Register.consult
  rewrite [hcaching, h.engine, h.config]
  cases S.engine.optionsFor S.config.transform path with
  | error reason => rfl
  | ok options =>
      simp only [hticket, if_true]
      cases S.ticket options path with
      | error e => rfl
      | ok t =>
          dsimp only
          rewrite [hverdict]
          cases Verdict.of (held.get? t.key) t.stamp with
          | hit entry => rfl
          | absent => rfl
          | stale => rfl

/-- A deed leaves a register serving the setup, with what it files. -/
theorem Serves.outcome (h : Serves S store held r w) (path : FilePath) (inline : Option String)
    (l : Loaded) {d : Register.Deed} (hd : d = r.deed w path inline) (hfiled : d.filed = l.filed) :
    Serves S store (l.into held) (d.outcome r w).register (d.outcome r w).world := by
  refine ⟨h.hooks, h.engine, h.config, h.discriminator, h.caching, h.standing, ?_, ?_, ?_⟩
  · rw [Register.disk_outcome]
    exact h.disk
  · obtain ⟨flushPending, hstore⟩ := h.held
    obtain ⟨pending, hafter⟩ := Register.store_outcome d r w
    refine ⟨pending, ?_⟩
    show (d.outcome r w).world.store r.store = _
    rw [hafter, hstore]
    unfold Register.Deed.enter Loaded.into
    rw [hfiled]
    cases l.filed with
    | none => rfl
    | some rec => rfl
  · have hqueued := Life.queued_compile h.queued rfl path inline
    rw [Register.compile_eq, ← hd] at hqueued
    exact hqueued

/-- A register that serves a setup compiles a file as the setup does. -/
theorem Serves.deed (h : Serves S store held r w) (path : FilePath) :
    Matches (S.compile held path) (r.deed w path none) := by
  have hconsult := h.consult_eq path
  unfold Setup.compile Register.deed
  cases hoptions : S.engine.optionsFor S.config.transform path with
  | error reason =>
      rw [hoptions] at hconsult
      rw [hconsult]
      exact .failed rfl rfl
  | ok options =>
      rw [hoptions] at hconsult
      simp only at hconsult ⊢
      cases hticket : S.ticket options path with
      | error e =>
          rw [hticket] at hconsult
          rw [hconsult]
          exact .failed rfl rfl
      | ok t =>
          rw [hticket] at hconsult
          simp only at hconsult ⊢
          -- with nothing held for the ticket the engine is called, for whatever reason
          have hcalled : ∀ messages, (held.get? t.key).filter (·.holds t.stamp) = none →
              Matches
                (match (held.get? t.key).filter (·.holds t.stamp) with
                | some entry => .ok { code := entry.code }
                | none =>
                  match (S.engine.invoke S.disk options path none).1 with
                  | .error reason => .error (.transform reason)
                  | .ok output => .ok { code := output.code, filed := some ⟨t, output⟩ })
                (r.deedOfCall w path none messages options (some t)) := by
            intro messages hnone
            rw [hnone]
            unfold Register.deedOfCall
            rw [h.engine, h.disk]
            simp only
            cases (S.engine.invoke S.disk options path none).1 with
            | error reason => exact .failed rfl rfl
            | ok output => exact .done rfl rfl fun hfiled => by cases hfiled
          unfold Verdict.of at hconsult
          cases hentry : held.get? t.key with
          | none =>
              rw [hentry] at hconsult hcalled
              rw [hconsult]
              exact hcalled _ rfl
          | some entry =>
              rw [hentry] at hconsult hcalled
              simp only at hconsult
              cases hholds : entry.holds t.stamp with
              | true =>
                  rw [if_pos hholds] at hconsult
                  rw [hconsult, Option.filter_some, hholds]
                  exact .done rfl rfl fun _ => rfl
              | false =>
                  rw [if_neg (by rw [hholds]; exact Bool.false_ne_true)] at hconsult
                  rw [hconsult]
                  exact hcalled _ (by rw [Option.filter_some, hholds]; rfl)

/-- A file is handed over with what it is compiled to. -/
theorem Serves.compile {v : World} (h : Serves S store held r v)
    (hcalls : v.invocations = w.invocations) (path : FilePath) :
    Loading S store held w path (S.compile held path)
      ⟨Handover.mk path <$> (r.compile v path none).result, (r.compile v path none).register,
        (r.compile v path none).world⟩ := by
  have hmatches := h.deed path
  have hserves := fun l => h.outcome path none l rfl
  rw [Register.compile_eq]
  generalize r.deed v path none = d at hserves hmatches
  generalize S.compile held path = compiled at hmatches
  cases hmatches with
  | failed hresult hfiled =>
      refine .failed ?_ (hserves { code := "" } hfiled)
      show Handover.mk path <$> d.result = _
      rw [hresult]
      rfl
  | done hresult hfiled hquiet =>
      refine .done ?_ (hserves _ hfiled) fun hnone => ?_
      · show Handover.mk path <$> d.result = _
        rw [hresult]
        rfl
      · show (d.outcome r v).world.invocations = _
        rw [Register.invocations_outcome, hquiet hnone, List.append_nil, hcalls]

/-- A register that serves a setup loads a file as the setup does. -/
theorem Serves.load (h : Serves S store held r w) (path : FilePath) :
    Loading S store held w path (S.loadAt held path) (r.load w path none) := by
  have hloader := h.hooks.get?_table (ExtensionTable.extensionOf path)
  unfold Setup.loadAt Register.load ExtensionTable.loaderFor
  rw [hloader]
  by_cases hhooked : ExtensionTable.extensionOf path ∈ S.hooked
  · rw [if_pos hhooked, if_pos hhooked]
    simp only [Register.loadWith, h.config]
    cases hignores : S.config.filter.ignores path with
    | true =>
        simp only [if_true]
        show Loading S store held w path _
          ⟨Handover.mk path <$> unchangedCode (w.send _).disk path none, r, w.send _⟩
        rw [World.disk_send, h.disk]
        cases unchangedCode S.disk path none with
        | error e => exact .failed rfl (h.send _)
        | ok code => exact .done (l := { code }) rfl (h.send _) fun _ => rfl
    | false =>
        simp only [Bool.false_eq_true, if_false]
        exact Serves.compile (w := w) (h.send _) rfl path
  · rw [if_neg hhooked, if_neg hhooked]
    exact .failed rfl h

-- ============================================================ a list of files

/-- Why a run failed, as a result. -/
def resultOf : Option Failure → Except Failure Unit
  | none => .ok ()
  | some reason => .error reason

/-- A register that serves a setup writes what is loaded, up to the file that
fails, and is left serving the setup with what is entered. -/
theorem loadFiles_serves (files : List FilePath) :
    ∀ {held : Keyed Cache.Entry} {r : Register} {w : World} (output : String),
      Serves S store held r w →
      let loads := S.loads held files
      let after := loadFiles r w (workingDirectory S.disk) output files
      after.1 = resultOf loads.2 ∧ after.2.1 = output ++ written loads.1 ∧
        Serves S store (kept held loads.1) after.2.2.1 after.2.2.2 ∧
        (loads.2 = none → (∀ l ∈ loads.1, l.filed = none) →
          after.2.2.2.invocations = w.invocations) := by
  induction files with
  | nil => exact fun output h => ⟨rfl, String.append_empty.symm, h, fun _ _ => rfl⟩
  | cons file rest ih =>
      intro held r w output h
      simp only
      unfold loadFiles Setup.loads Setup.load
      cases FilePath.absolute? (workingDirectory S.disk) file with
      | none =>
          exact ⟨rfl, String.append_empty.symm, h, fun hnone => by cases hnone⟩
      | some path =>
          have hload := h.load path
          simp only
          generalize r.load w path none = o at hload
          generalize S.loadAt held path = loaded at hload
          cases hload with
          | failed hresult hserves =>
              simp only [hresult]
              exact ⟨rfl, String.append_empty.symm, hserves, fun hnone => by cases hnone⟩
          | @done l _ hresult hserves hquiet =>
              simp only [hresult]
              obtain ⟨hafter, houtput, hkept, hcalls⟩ := ih (output ++ printed l.code) hserves
              refine ⟨hafter, houtput.trans ?_, hkept, fun hnone hfiled => ?_⟩
              · rw [written_cons, String.append_assoc]
              · obtain ⟨hfirst, hothers⟩ := List.forall_mem_cons.1 hfiled
                exact (hcalls hnone hothers).trans (hquiet hfirst)

end TransformCache.Cli
