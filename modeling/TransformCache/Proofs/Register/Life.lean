/-
The life of one register, with all that can happen around it.

A life goes on by moves. The register is called, a host loads files through
it, the disk is changed from outside, queues are run, the store is flushed. And
there is what keeps a flush from reaching the file: a `mishap` puts anything at
any place of the disk, also where a directory or the file itself is to be made,
and `limit` sets how large the file may become.

Two things are said of all moves. The register goes on as what it began as,
with its engine, its environment, its store and the table that it took over
(`register_apply`, `over_run`). And tasks that wait are flushes of stores, if
they were so at the beginning (`awaits_compile`, `keeps_of_compile?_eq_none`);
what flushes leave alone, turns leave alone too (`perform_awaiting`).
-/
import TransformCache.Proofs.Cache.Session
import TransformCache.Proofs.Register.Deed
import TransformCache.Proofs.Register.Teardown
import TransformCache.Proofs.Turn

namespace TransformCache.Life

open Cache (Request Shelf)
open Register (Over)
open Teardown (Call State)

-- ================================================================== moves

/-- What happens next in the life of a register. -/
inductive Move where
  /-- The register is called, or a turn is run. -/
  | call (c : Call)
  /-- The host loads a file. -/
  | load (path : FilePath) (inline : Option String)
  /-- The disk is changed from outside. -/
  | edit (change : FileSystem.Edit)
  /-- A queue is run until it is empty. -/
  | drain (queue : Nat)
  | flush
  /-- Something else is found at a place of the disk. -/
  | mishap (place : Location) (found : Option DiskEntry)
  /-- The file of the store may have so many bytes from now on. -/
  | limit (bytes : Nat)

/-- The disk with something, or nothing, at a place. -/
def found (disk : FileSystem) (place : Location) (e : Option DiskEntry) : FileSystem :=
  { disk with entry := fun l => if l = place then e else disk.entry l }

def Move.apply (s : State) : Move → State
  | .call c => c.apply s
  | .load path inline =>
    ((s.1.load s.2 path inline).register, (s.1.load s.2 path inline).world)
  | .edit change => (s.1, s.2.edit change)
  | .drain queue => (s.1, s.2.perform [.drain queue .count])
  | .flush => (s.1, s.2.flush s.1.store)
  | .mishap place e => (s.1, s.2.onShelf fun x => { x with disk := found x.disk place e })
  | .limit bytes => (s.1, s.2.modifyStore s.1.store fun x => { x with sizeLimit := bytes })

def run (s : State) (moves : List Move) : State := moves.foldl Move.apply s

variable {s : State} {m : Move} {moves : List Move} {r : Register} {w : World}
  {path : FilePath} {inline : Option String}

-- ============================================================ loading a file

/-- True for a file that the register compiles when it is loaded. -/
def compiles (r : Register) (path : FilePath) : Bool :=
  match ExtensionTable.loaderFor r.table path with
  | .ok (.intercepting _) => r.config.filter.accepts path
  | _ => false

/-- The message before a file is compiled that is loaded. -/
def announced (r : Register) (w : World) (path : FilePath) : World :=
  w.send (r.config.trace ("loading " ++ path.text))

/-- A file is handed over with the code that a compile answers. -/
theorem load_of_compiles (h : compiles r path = true) (w : World) (inline : Option String) :
    r.load w path inline
      = let done := r.compile (announced r w path) path inline
        ⟨Handover.mk path <$> done.result, done.register, done.world⟩ := by
  unfold compiles at h
  unfold Register.load
  split at h
  next delegate hloader =>
    have haccepts : r.config.filter.ignores path = false := by
      simpa [Filter.accepts] using h
    rw [hloader]
    simp only
    rw [Register.loadWith, haccepts]
    rfl
  next => cases h

/-- What a file is loaded as where nothing intercepts it. -/
def passed : Loader → FileSystem → FilePath → Option String → Except Error String
  | .host l => l.code
  | .unchanged => unchangedCode
  | .intercepting delegate => passed delegate

/-- What a file is handed over as where it is not compiled. -/
def handed (r : Register) (disk : FileSystem) (path : FilePath) (inline : Option String) :
    Except Error Handover :=
  match ExtensionTable.loaderFor r.table path with
  | .error e => .error e
  | .ok loader => Handover.mk path <$> passed loader disk path inline

theorem loadWith_of_ignored (h : r.config.filter.ignores path = true) (inline : Option String)
    (loader : Loader) :
    ∃ messages, ∀ w, r.loadWith w path inline loader
      = ⟨Handover.mk path <$> passed loader w.disk path inline, r, w.send messages⟩ := by
  induction loader with
  | host l => exact ⟨[], fun w => by rw [World.send_nil]; rfl⟩
  | unchanged => exact ⟨[], fun w => by rw [World.send_nil]; rfl⟩
  | intercepting delegate ih =>
      obtain ⟨messages, hdelegate⟩ := ih
      refine ⟨r.config.trace ("ignoring " ++ path.text) ++ messages, fun w => ?_⟩
      rw [Register.loadWith, if_pos h, hdelegate, World.send_send]
      rfl

/-- Loading a file that is not compiled sends messages and changes nothing. -/
theorem load_of_not_compiles (h : compiles r path = false) (inline : Option String) :
    ∃ messages, ∀ w, r.load w path inline
      = ⟨handed r w.disk path inline, r, w.send messages⟩ := by
  unfold compiles at h
  unfold Register.load handed
  cases hloader : ExtensionTable.loaderFor r.table path with
  | error e => exact ⟨[], fun w => by rw [World.send_nil]⟩
  | ok loader =>
      rw [hloader] at h
      cases loader with
      | host l => exact ⟨[], fun w => by rw [World.send_nil]; rfl⟩
      | unchanged => exact ⟨[], fun w => by rw [World.send_nil]; rfl⟩
      | intercepting delegate =>
          have hignores : r.config.filter.ignores path = true := by
            simpa [Filter.accepts] using h
          exact loadWith_of_ignored hignores inline _

/-- A load changes nothing of its register but the source maps. -/
theorem register_load (r : Register) (w : World) (path : FilePath) (inline : Option String) :
    ∃ maps, (r.load w path inline).register = { r with maps } := by
  cases h : compiles r path with
  | true =>
      rw [load_of_compiles h]
      exact Register.register_compile ..
  | false =>
      obtain ⟨messages, hload⟩ := load_of_not_compiles h inline
      rw [hload]
      exact ⟨_, rfl⟩

-- ===================================================== what a register stays

/-- A move leaves a register its engine, its environment and its store. -/
theorem register_apply (s : State) (m : Move) :
    ∃ config hooks table maps tornDown,
      (m.apply s).1 = { s.1 with config, hooks, table, maps, tornDown } := by
  cases m with
  | call c =>
      obtain ⟨config, hooks, table, maps, tornDown, hregister, -⟩ := Teardown.register_apply s c
      exact ⟨config, hooks, table, maps, tornDown, hregister⟩
  | load path inline =>
      obtain ⟨maps, hregister⟩ := register_load s.1 s.2 path inline
      exact ⟨_, _, _, maps, _, hregister⟩
  | _ => exact ⟨_, _, _, _, _, rfl⟩

theorem store_apply (s : State) (m : Move) : (m.apply s).1.store = s.1.store := by
  obtain ⟨_, _, _, _, _, hregister⟩ := register_apply s m
  rw [hregister]

/-- What every move keeps, a run keeps. -/
theorem run_keeps {P : State → Prop} (hstep : ∀ s (m : Move), P s → P (m.apply s))
    (moves : List Move) : ∀ {s}, P s → P (run s moves) := by
  induction moves with
  | nil => exact id
  | cons m rest ih => exact fun h => ih (hstep _ m h)

/-- After any run a register has its engine, its environment and its store. -/
theorem register_run (s : State) (moves : List Move) :
    (run s moves).1.engine = s.1.engine ∧ (run s moves).1.env = s.1.env ∧
      (run s moves).1.store = s.1.store := by
  refine run_keeps (P := fun s' => s'.1.engine = s.1.engine ∧ s'.1.env = s.1.env ∧
    s'.1.store = s.1.store) (fun s' m h => ?_) moves ⟨rfl, rfl, rfl⟩
  obtain ⟨_, _, _, _, _, hregister⟩ := register_apply s' m
  rw [hregister]
  exact h

/-- A register has always taken over some extensions of the table that it began
with. -/
theorem over_run {table : ExtensionTable Loader} (h : ∃ wanted, Over table wanted s.1)
    (moves : List Move) : ∃ wanted, Over table wanted (run s moves).1 := by
  refine run_keeps (P := fun s => ∃ wanted, Over table wanted s.1) ?_ moves h
  rintro s m ⟨wanted, hover⟩
  cases m with
  | call c => exact ⟨_, Teardown.over_apply hover c⟩
  | load path inline =>
      obtain ⟨maps, hregister⟩ := register_load s.1 s.2 path inline
      refine ⟨wanted, ?_⟩
      show Over table wanted (s.1.load s.2 path inline).register
      rw [hregister]
      exact hover
  | _ => exact ⟨wanted, hover⟩

-- ========================================================= tasks that wait

/-- Deferred flushes of some stores, and the counts that turns report. -/
def Flushes (p : Nat → Prop) : Request → Prop
  | .deferredFlush n => p n
  | .count _ => True
  | _ => False

/-- Nothing waits but flushes of some stores. -/
def Awaits (p : Nat → Prop) (w : World) : Prop :=
  ∀ t ∈ w.session.waiting, Turn.taskAll (Flushes p) t.2

variable {p : Nat → Prop}

/-- What flushes keep on the disk and of the stores, running tasks keeps that
wait. -/
theorem perform_awaiting {P : FileSystem → (Nat → Cache.Store) → Prop}
    (hP : ∀ n, p n → ∀ x : Shelf, P x.disk x.stores →
      P (x.deferredFlush n).disk (x.deferredFlush n).stores)
    (hw : Awaits p w) (h : P w.disk w.store) {actions : Turn.Task Request}
    (hactions : Turn.taskAll (Flushes p) actions) :
    P (w.perform actions).disk (w.perform actions).store ∧ Awaits p (w.perform actions) := by
  have hact : ∀ e, Flushes p e → ∀ x : Shelf, P x.disk x.stores →
      P (x.act e).disk (x.act e).stores := by
    intro e he x hx
    cases e with
    | deferredFlush n => exact hP n he x hx
    | count k => exact hx
    | _ => exact he.elim
  have hask : ∀ e, Flushes p e → ∀ x : Shelf, P x.disk x.stores →
      P (x.ask e).1.disk (x.ask e).1.stores ∧ ∀ q ∈ (x.ask e).2, Flushes p q.2 := by
    intro e he x hx
    have hsame : x.ask e = (x.act e, none) :=
      Cache.Shelf.ask_eq_act e fun n queue heq => by rw [heq] at he; exact he
    rw [hsame]
    exact ⟨hact e he x hx, fun q hq => by cases hq⟩
  exact Turn.perform_orderly (h := Shelf.host) hact hask h hw hactions

theorem awaits_addStore (hw : Awaits p w) (making : Cache.Making) :
    Awaits p (w.addStore making).2 := hw

theorem awaits_scheduleFlush {n : Nat} (hw : Awaits p w) (hn : p n) :
    Awaits p (w.scheduleFlush n) := by
  unfold World.scheduleFlush Shelf.ask
  simp only
  cases (w.session.host.stores n).requestFlush.2 with
  | false => exact hw
  | true =>
      intro t ht
      rcases List.mem_append.1 ht with ht | ht
      · exact hw t ht
      · rw [List.mem_singleton.1 ht]
        exact ⟨hn, trivial⟩

/-- A deed defers nothing but a flush of its store. -/
theorem awaits_outcome (hw : Awaits p w) (hr : p r.store) (d : Register.Deed) :
    Awaits p (d.outcome r w).world := by
  unfold Awaits
  rw [Register.session_outcome]
  cases d.filed with
  | none => exact hw
  | some rec => exact awaits_scheduleFlush (w := w.modifyStore _ _) hw hr

theorem awaits_compile (hw : Awaits p w) (hr : p r.store) (path : FilePath)
    (inline : Option String) : Awaits p (r.compile w path inline).world := by
  rw [Register.compile_eq]
  exact awaits_outcome hw hr _

-- ================================================= what becomes of the store

/-- The compile that a move makes, with the world that it finds. -/
def Move.compile? (s : State) : Move → Option (World × FilePath × Option String)
  | .call (.compile path inline) => some (s.2, path, inline)
  | .load path inline =>
    if compiles s.1 path then some (announced s.1 s.2 path, path, inline) else none
  | _ => none

theorem apply_of_compile? (h : m.compile? s = some (w, path, inline)) :
    w.session = s.2.session ∧
      m.apply s = ((s.1.compile w path inline).register, (s.1.compile w path inline).world) := by
  cases m with
  | call c =>
      cases c with
      | compile path inline =>
          cases h
          exact ⟨rfl, rfl⟩
      | _ => cases h
  | load path inline =>
      unfold Move.compile? at h
      simp only at h
      split at h
      next hcompiles =>
        cases h
        refine ⟨rfl, ?_⟩
        simp only [Move.apply, load_of_compiles hcompiles]
      next => cases h
  | _ => cases h

/-- A file that is loaded and not compiled is passed on. -/
theorem compiles_of_compile?_eq_none (h : (Move.load path inline).compile? s = none) :
    compiles s.1 path = false := by
  unfold Move.compile? at h
  simp only at h
  split at h
  next => cases h
  next hcompiles => exact Bool.of_not_eq_true hcompiles

/-- What is left alone by all that files nothing. The entries are, and a store
that is on was on before, and the register uses it as before. -/
structure Keeps (s s' : State) : Prop where
  entries : (s'.2.store s.1.store).entries = (s.2.store s.1.store).entries
  on : (s'.2.store s.1.store).enabled = true → (s.2.store s.1.store).enabled = true ∧
    (s.1.config.cacheEnabled = true → s'.1.config.cacheEnabled = true)

theorem hookExtensions_eq (r : Register) (extensions : List String) :
    ∃ register messages, register.config = r.config ∧
      ∀ w, r.hookExtensions w extensions = (register, w.send messages) := by
  refine ⟨_, _, ?_, fun _ => rfl⟩
  rfl

/-- Applying options does the same in every world: it sends messages, and may
turn the store off. If it does not, it does not turn the cache off either. -/
theorem configure_eq (r : Register) (options : Options) :
    ∃ result register messages, ∃ off : Bool,
      (off = false → r.config.cacheEnabled = true → register.config.cacheEnabled = true) ∧
      ∀ w, r.configure w options
        = ⟨result, register,
          (if off then w.modifyStore r.store (·.disable) else w).send messages⟩ := by
  unfold Register.configure
  cases r.config.merge options with
  | error e => exact ⟨.error e, r, [], false, fun _ => id, fun w => by simp [World.send_nil]⟩
  | ok merged =>
      obtain ⟨config, messages⟩ := merged
      have hkept : ∀ on : Bool, (!on) = false → on = true := by simp
      simp only
      -- turning the store off and sending messages are done in either order
      cases options.extensions with
      | none =>
          refine ⟨.ok (), { r with config }, messages, !config.cacheEnabled,
            fun hoff _ => hkept _ hoff, fun w => ?_⟩
          cases config.cacheEnabled with
          | true => rfl
          | false => rfl
      | some extensions =>
          obtain ⟨register, more, hconfig, hhook⟩ := hookExtensions_eq { r with config } extensions
          refine ⟨.ok (), register, messages ++ more, !config.cacheEnabled,
            fun hoff _ => ?_, fun w => ?_⟩
          · rw [hconfig]
            exact hkept _ hoff
          · simp only [hhook, ← World.send_send]
            cases config.cacheEnabled with
            | true => rfl
            | false => rfl

/-- A store that is on after a configuration was on before, and the cache was
not turned off. -/
theorem on_of_configure {options : Options}
    (h : ((r.configure w options).world.store r.store).enabled = true) :
    (w.store r.store).enabled = true ∧
      (r.config.cacheEnabled = true →
        (r.configure w options).register.config.cacheEnabled = true) := by
  obtain ⟨result, register, messages, off, hkept, hconfigure⟩ := configure_eq r options
  rw [hconfigure] at h ⊢
  cases off with
  | false => exact ⟨h, hkept rfl⟩
  | true =>
      have hoff : ((w.modifyStore r.store (·.disable)).store r.store).enabled = true := h
      rw [World.store_modifyStore_self] at hoff
      cases hoff

/-- Running tasks that wait leaves the entries of all stores alone, and whether
they are on. -/
theorem keeps_perform (hw : Awaits p s.2) {actions : Turn.Task Request}
    (hactions : Turn.taskAll (Flushes p) actions) :
    Keeps s (s.1, s.2.perform actions) ∧ Awaits p (s.2.perform actions) := by
  have hP : ∀ n, p n → ∀ x : Shelf,
      ((x.stores s.1.store).entries = (s.2.store s.1.store).entries ∧
        (x.stores s.1.store).enabled = (s.2.store s.1.store).enabled) →
      ((x.deferredFlush n).stores s.1.store).entries = (s.2.store s.1.store).entries ∧
        ((x.deferredFlush n).stores s.1.store).enabled = (s.2.store s.1.store).enabled := by
    rintro n - x ⟨hentries, henabled⟩
    have hstore := Shelf.act_deferredFlush (s := x) n s.1.store
    rw [show (x.deferredFlush n).stores s.1.store = _ from hstore]
    by_cases hn : s.1.store = n
    · rw [if_pos hn, ← hn]
      exact ⟨hentries, henabled⟩
    · rw [if_neg hn]
      exact ⟨hentries, henabled⟩
  obtain ⟨⟨hentries, henabled⟩, hawaits⟩ :=
    perform_awaiting (P := fun _ stores =>
      (stores s.1.store).entries = (s.2.store s.1.store).entries ∧
        (stores s.1.store).enabled = (s.2.store s.1.store).enabled) hP hw ⟨rfl, rfl⟩ hactions
  exact ⟨⟨hentries, fun hon => ⟨henabled ▸ hon, id⟩⟩, hawaits⟩

theorem keeps_of_compile?_eq_none (hw : Awaits p s.2) (h : m.compile? s = none) :
    Keeps s (m.apply s) ∧ Awaits p (m.apply s).2 := by
  cases m with
  | call c =>
      cases c with
      | configure options =>
          refine ⟨⟨(Teardown.world_configure s.1 s.2 options).2 _, on_of_configure⟩, ?_⟩
          have hwaiting : ((s.1.configure s.2 options).world.session).waiting
              = s.2.session.waiting := by
            rcases s.1.configure_cases s.2 options with
              ⟨-, hsame⟩ | ⟨_, _, _, _, -, -, hsession | hsession⟩
            · rw [hsame]
            · rw [hsession]
            · rw [hsession]
              rfl
          intro t ht
          rw [show (Move.apply s (.call (.configure options))).2.session.waiting = _ from
            hwaiting] at ht
          exact hw t ht
      | hook extensions => exact ⟨⟨rfl, fun hon => ⟨hon, id⟩⟩, hw⟩
      | compile path inline => cases h
      | tearDown =>
          unfold Move.apply Call.apply
          simp only
          rcases s.1.tearDown_cases s.2 with hsame | ⟨_, _, hdone⟩
          · rw [hsame]
            exact ⟨⟨rfl, fun hon => ⟨hon, id⟩⟩, hw⟩
          · rw [hdone]
            exact ⟨⟨rfl, fun hon => ⟨hon, id⟩⟩, hw⟩
      | turn queue => exact keeps_perform hw ⟨fun _ => trivial, trivial⟩
  | load path inline =>
      obtain ⟨messages, hload⟩ := load_of_not_compiles (compiles_of_compile?_eq_none h) inline
      simp only [Move.apply, hload]
      exact ⟨⟨rfl, fun hon => ⟨hon, id⟩⟩, hw⟩
  | drain queue => exact keeps_perform hw ⟨fun _ => trivial, trivial⟩
  | edit change => exact ⟨⟨rfl, fun hon => ⟨hon, id⟩⟩, hw⟩
  | flush => exact ⟨⟨rfl, fun hon => ⟨hon, id⟩⟩, hw⟩
  | mishap place e => exact ⟨⟨rfl, fun hon => ⟨hon, id⟩⟩, hw⟩
  | limit bytes =>
      have hstore : (s.2.modifyStore s.1.store fun x => { x with sizeLimit := bytes }).store
          s.1.store = { s.2.store s.1.store with sizeLimit := bytes } :=
        World.store_modifyStore_self _
      refine ⟨⟨?_, fun hon => ⟨?_, id⟩⟩, hw⟩
      · exact (congrArg Cache.Store.entries hstore).trans rfl
      · exact ((congrArg Cache.Store.enabled hstore).trans rfl).symm.trans hon

end TransformCache.Life
