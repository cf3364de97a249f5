/-
When a register answers without its engine, told from its history.

# Recordings

A compile that calls the engine, with success, records what the engine made
under the ticket of the file: its key and its stamp. Whether the engine is
called can be seen from outside (`asks`), so the recordings of a run are known
without a look into the store (`recordings`).

# The store as the account of a history

As long as the store of a register is on, an entry is held under a key exactly
if something was recorded under the key, and the entry is what was recorded
last (`Accounted`). Compiles keep it so, because nothing but what they record
gets into the store, and nothing else that happens changes the entries. Whether
an engine is called can then be read off the recordings alone, and the source
map of a file is that of the output which its code came from.
-/
import TransformCache.Proofs.Register.Deed
import TransformCache.Proofs.Register.Life

namespace TransformCache

-- ============================================================ source maps

/-- What is found for a file is what was registered for it last. -/
@[simp] theorem SourceMaps.retrieve_register (s : SourceMaps) (path : FilePath)
    (map : Option Json) : (s.register path map).retrieve path = map := by
  unfold retrieve register
  cases map with
  | some m => simp
  | none =>
      rw [Option.map_eq_none_iff, List.find?_eq_none]
      intro found hfound
      simpa using (List.mem_filter.1 hfound).2

namespace Register

variable {r : Register} {w : World} {path : FilePath} {inline : Option String}

-- ============================================================= recordings

/-- True if a compile calls the engine. -/
def asks (r : Register) (w : World) (path : FilePath) (inline : Option String) : Bool :=
  w.invocations.length < (r.compile w path inline).world.invocations.length

/-- What a compile records: a ticket for the file, and what the engine made if
it was called and made something. -/
def recorded (r : Register) (w : World) (path : FilePath) (inline : Option String) :
    Option Recording :=
  if r.asks w path inline then
    (r.engine.optionsFor r.config.transform path).toOption.bind fun options =>
      (r.ticket w options path).toOption.bind fun ticket =>
        (r.engine.invoke w.disk options path inline).1.toOption.map fun output =>
          ⟨ticket, output⟩
  else none

theorem invocations_produce (r : Register) (w : World) (path : FilePath)
    (inline : Option String) (options : EngineOptions) (ticket : Option Ticket) :
    (r.produce w path inline options ticket).world.invocations
      = w.invocations ++ [(r.engine.invoke w.disk options path inline).2] := by
  unfold produce
  simp only
  split
  · rfl
  · cases ticket with
    | none => rfl
    | some t => exact invocations_file ..

/-- A call of the engine that comes to something: its code is the answer, and its
map is registered. -/
theorem produce_of_ok {options : EngineOptions} {ticket : Option Ticket} {code : String}
    (h : (r.produce w path inline options ticket).result = .ok code) :
    ∃ output call, r.engine.invoke w.disk options path inline = (.ok output, call) ∧
      code = output.code ∧
      (r.produce w path inline options ticket).register
        = { r with maps := r.maps.register path output.map } := by
  unfold produce at h ⊢
  simp only at h ⊢
  rcases hinvoke : r.engine.invoke w.disk options path inline with ⟨made, call⟩
  rw [hinvoke] at h
  cases made with
  | error reason => cases h
  | ok output => exact ⟨output, call, rfl, (Except.ok.inj h).symm, rfl⟩

/-- A compile asks the engine exactly if its deed has a call in it. -/
theorem asks_eq (r : Register) (w : World) (path : FilePath) (inline : Option String) :
    r.asks w path inline = !(r.deed w path inline).calls.isEmpty := by
  unfold asks
  rw [compile_eq, invocations_outcome, List.length_append]
  cases (r.deed w path inline).calls with
  | nil => simp
  | cons call more => simp

/-- A file that the store is asked about has a ticket, or is refused. -/
theorem consult_of_caching (hcaching : r.caching w = true) (path : FilePath) :
    (∃ e, r.consult w path = .error e) ∨ (∃ entry, r.consult w path = .ok (.answered entry)) ∨
      ∃ options t stale, r.engine.optionsFor r.config.transform path = .ok options ∧
        r.ticket w options path = .ok t ∧
        r.consult w path = .ok (.unanswered options (some t) stale) := by
  unfold consult
  cases r.engine.optionsFor r.config.transform path with
  | error reason => exact .inl ⟨_, rfl⟩
  | ok options =>
      simp only [hcaching, if_true]
      cases hticket : r.ticket w options path with
      | error e => exact .inl ⟨_, rfl⟩
      | ok t =>
          right
          simp only
          cases Verdict.of ((w.store r.store).lookUp t.key) t.stamp with
          | hit entry => exact .inl ⟨_, rfl⟩
          | absent => exact .inr ⟨_, _, _, rfl, hticket, rfl⟩
          | stale => exact .inr ⟨_, _, _, rfl, hticket, rfl⟩

/-- What a compile records is what it files. -/
theorem filed_deed (hcaching : r.caching w = true) (path : FilePath) (inline : Option String) :
    (r.deed w path inline).filed = r.recorded w path inline := by
  unfold recorded
  rw [asks_eq]
  unfold deed
  rcases consult_of_caching hcaching path with
    ⟨e, hconsult⟩ | ⟨entry, hconsult⟩ | ⟨options, t, stale, hoptions, hticket, hconsult⟩
  · rw [hconsult]
    rfl
  · rw [hconsult]
    rfl
  · rw [hconsult, hoptions]
    simp only [Except.toOption, Option.bind_some, hticket]
    rw [calls_deedOfCall, filed_deedOfCall]
    rfl

-- ===================================================== stores that are filed in

/-- No compile turns a store on or off. -/
theorem enabled_compile (r : Register) (w : World) (path : FilePath) (inline : Option String) :
    ((r.compile w path inline).world.store r.store).enabled = (w.store r.store).enabled := by
  rw [compile_eq]
  obtain ⟨_, hstore⟩ := store_outcome (r.deed w path inline) r w
  rw [hstore]
  exact Deed.enabled_enter ..

/-- Without recordings nothing is different; a recording is entered. -/
theorem entries_compile (hcaching : r.caching w = true) (path : FilePath)
    (inline : Option String) :
    ((r.compile w path inline).world.store r.store).entries
      = match r.recorded w path inline with
        | some rec => (w.store r.store).entries.insert rec.ticket.key rec.entry
        | none => (w.store r.store).entries := by
  have hon : (w.store r.store).enabled = true := (Bool.and_eq_true_iff.1 hcaching).2
  rw [compile_eq, ← filed_deed hcaching]
  obtain ⟨_, hstore⟩ := store_outcome (r.deed w path inline) r w
  rw [hstore]
  unfold Deed.enter
  cases (r.deed w path inline).filed with
  | none => rfl
  | some rec => simp only [Cache.Store.put, if_pos hon]

end Register

namespace Life

open Register (Recording Ticket)
open Teardown (State)

variable {s : State} {m : Move} {past : List Recording} {init : Keyed Cache.Entry} {t : Ticket}
  {path : FilePath} {inline : Option String}

-- ================================================================ histories

/-- What a move records. -/
def Move.recorded (s : State) (m : Move) : Option Recording :=
  (m.compile? s).bind fun (w, path, inline) => s.1.recorded w path inline

/-- What is recorded in a run. -/
def recordings (s : State) : List Move → List Recording
  | [] => []
  | m :: rest => (m.recorded s).toList ++ recordings (m.apply s) rest

/-- What was recorded last under a key. -/
def latest (key : String) (past : List Recording) : Option Recording :=
  (past.filter fun rec => rec.ticket.key = key).getLast?

theorem latest_append (key : String) (past : List Recording) (rec : Recording) :
    latest key (past ++ [rec]) = if rec.ticket.key = key then some rec else latest key past := by
  unfold latest
  rw [List.filter_append]
  by_cases hkey : rec.ticket.key = key
  · simp [hkey]
  · simp [hkey]

theorem mem_of_latest {key : String} {rec : Recording} (h : latest key past = some rec) :
    rec ∈ past ∧ rec.ticket.key = key := by
  obtain ⟨hmem, hkey⟩ := List.mem_filter.1 (List.mem_of_getLast? h)
  exact ⟨hmem, of_decide_eq_true hkey⟩

/-- The entries of a store are those that it had and those that were recorded
since, the last one under each key, and nothing else waits but flushes. -/
structure Accounted (init : Keyed Cache.Entry) (past : List Recording) (s : State) : Prop where
  awaits : Awaits (fun _ => True) s.2
  config : (s.2.store s.1.store).enabled = true → s.1.config.cacheEnabled = true
  entries : (s.2.store s.1.store).enabled = true → ∀ key,
    (s.2.store s.1.store).entries.get? key
      = ((latest key past).map Recording.entry <|> init.get? key)

theorem Accounted.caching (h : Accounted init past s)
    (hon : (s.2.store s.1.store).enabled = true) : s.1.caching s.2 = true := by
  unfold Register.caching
  rw [h.config hon, hon]
  rfl

/-- A register begins with what its store holds. -/
theorem accounted_create (w : World) (table : ExtensionTable Loader) (engine : Engine) (n : Nat)
    (env : Environment) (workingDirectory : FilePath) (hw : Awaits (fun _ => True) w) :
    Accounted (w.store n).entries []
      (Register.create w table engine n env workingDirectory) := by
  obtain ⟨⟨hooks, table', hregister⟩, hsession⟩ :=
    Register.create_cases w table engine n env workingDirectory
  generalize Register.create w table engine n env workingDirectory = begun at *
  obtain ⟨r, w'⟩ := begun
  obtain rfl : r = _ := hregister
  have hentries : (w'.store n).entries = (w.store n).entries := by
    unfold World.store
    rcases hsession with hsession | hsession
    · rw [show w'.session = _ from hsession]
    · rw [show w'.session = _ from hsession]
      exact (congrArg Cache.Store.entries
        (World.store_modifyStore_self (w := w) (n := n) (·.disable))).trans rfl
  have hwaiting : w'.session.waiting = w.session.waiting := by
    rcases hsession with hsession | hsession
    · rw [show w'.session = _ from hsession]
    · rw [show w'.session = _ from hsession]
      rfl
  refine ⟨fun t ht => hw t (hwaiting ▸ ht), fun _ => rfl, fun _ key => ?_⟩
  show (w'.store n).entries.get? key = _
  rw [hentries]
  rfl

/-- What is entered is the last recording under its key. -/
theorem get?_insert_recording {entries : Keyed Cache.Entry} {rec : Recording}
    (h : ∀ key, entries.get? key = ((latest key past).map Recording.entry <|> init.get? key))
    (key : String) :
    (entries.insert rec.ticket.key rec.entry).get? key
      = ((latest key (past ++ [rec])).map Recording.entry <|> init.get? key) := by
  rw [Keyed.get?_insert, latest_append]
  by_cases hkey : rec.ticket.key = key
  · rw [if_pos hkey, if_pos hkey]
    rfl
  · rw [if_neg hkey, if_neg hkey]
    exact h key

/-- Every move keeps the account. -/
theorem accounted_apply (h : Accounted init past s) (m : Move) :
    Accounted init (past ++ (m.recorded s).toList) (m.apply s) := by
  have hstore := store_apply s m
  cases hcompile : m.compile? s with
  | none =>
      have hnone : m.recorded s = none := by
        unfold Move.recorded
        rw [hcompile]
        rfl
      obtain ⟨hkeeps, hawaits⟩ := keeps_of_compile?_eq_none h.awaits hcompile
      rw [hnone, Option.toList_none, List.append_nil]
      refine ⟨hawaits, fun hon => ?_, fun hon => ?_⟩
      · rw [hstore] at hon
        obtain ⟨hbefore, hused⟩ := hkeeps.on hon
        exact hused (h.config hbefore)
      · rw [hstore] at hon ⊢
        rw [hkeeps.entries]
        exact h.entries (hkeeps.on hon).1
  | some asked =>
      obtain ⟨w, path, inline⟩ := asked
      obtain ⟨hsession, happly⟩ := apply_of_compile? hcompile
      have hsame : w.store s.1.store = s.2.store s.1.store := by
        unfold World.store
        rw [hsession]
      have hbefore : ((m.apply s).2.store s.1.store).enabled = true →
          (s.2.store s.1.store).enabled = true := by
        rw [happly, ← hsame]
        exact fun hon => (Register.enabled_compile ..).symm.trans hon
      have hcaching : (s.2.store s.1.store).enabled = true → s.1.caching w = true := fun hon => by
        have hcaching := h.caching hon
        unfold Register.caching at hcaching ⊢
        rw [hsame]
        exact hcaching
      obtain ⟨maps, hregister⟩ := Register.register_compile s.1 w path inline
      refine ⟨?_, fun hon => ?_, fun hon => ?_⟩
      · rw [happly]
        refine awaits_compile (fun t ht => ?_) trivial path inline
        rw [hsession] at ht
        exact h.awaits t ht
      · rw [hstore] at hon
        rw [happly, show (s.1.compile w path inline).register = _ from hregister]
        exact h.config (hbefore hon)
      · rw [hstore] at hon ⊢
        have hentries := h.entries (hbefore hon)
        have hrecorded : m.recorded s = s.1.recorded w path inline := by
          unfold Move.recorded
          rw [hcompile]
          rfl
        rw [happly, hrecorded]
        simp only
        rw [Register.entries_compile (hcaching (hbefore hon)), hsame]
        cases s.1.recorded w path inline with
        | none =>
            rw [Option.toList_none, List.append_nil]
            exact hentries
        | some rec => exact get?_insert_recording hentries

/-- So does a run. -/
theorem accounted_run (moves : List Move) :
    ∀ {s : State} {past : List Recording}, Accounted init past s →
      Accounted init (past ++ recordings s moves) (run s moves) := by
  induction moves with
  | nil =>
      intro s past h
      rw [recordings, List.append_nil]
      exact h
  | cons m rest ih =>
      intro s past h
      rw [recordings, ← List.append_assoc]
      exact ih (accounted_apply h m)

/-- A store that was empty holds recordings alone. -/
theorem Accounted.recorded_of_held (h : Accounted ∅ past s)
    (hon : (s.2.store s.1.store).enabled = true) {key : String} {entry : Cache.Entry}
    (hheld : (s.2.store s.1.store).entries.get? key = some entry) :
    ∃ rec ∈ past, rec.ticket.key = key := by
  rw [h.entries hon] at hheld
  cases hlatest : latest key past with
  | none =>
      rw [hlatest] at hheld
      cases hheld
  | some rec => exact ⟨rec, mem_of_latest hlatest⟩

-- =================================================== answers without the engine

/-- What is held for a ticket is what was recorded last under its key, if that
was recorded with its stamp. -/
theorem Accounted.heldFor_eq (h : Accounted init past s)
    (hon : (s.2.store s.1.store).enabled = true) (hfree : init.get? t.key = none) :
    s.1.heldFor s.2 t
      = ((latest t.key past).filter (·.ticket.stamp = t.stamp)).map Recording.entry := by
  unfold Register.heldFor Cache.Store.lookUp
  rw [if_pos hon, h.entries hon, hfree]
  cases latest t.key past with
  | none => rfl
  | some rec =>
      show (some rec.entry).filter (·.holds t.stamp) = _
      rw [Option.filter_some, Option.filter_some]
      show (if decide (rec.ticket.stamp = t.stamp) = true then some rec.entry else none) = _
      split
      · rfl
      · rfl

/-- Where a store keeps the account of a history, the engine is not called for a
file exactly if the last recording under its key has its stamp, and then its
code is the answer. -/
theorem Accounted.compile_iff (h : Accounted init past s)
    (hon : (s.2.store s.1.store).enabled = true) (hfree : init.get? t.key = none)
    {options : EngineOptions}
    (hoptions : s.1.engine.optionsFor s.1.config.transform path = .ok options)
    (hticket : s.1.ticket s.2 options path = .ok t) (inline : Option String) :
    ((s.1.compile s.2 path inline).world.invocations = s.2.invocations ↔
        ∃ rec, latest t.key past = some rec ∧ rec.ticket.stamp = t.stamp) ∧
      ∀ rec, latest t.key past = some rec → rec.ticket.stamp = t.stamp →
        (s.1.compile s.2 path inline).result = .ok rec.output.code := by
  have hlast : ∀ entry, s.1.heldFor s.2 t = some entry ↔
      ∃ rec, latest t.key past = some rec ∧ rec.ticket.stamp = t.stamp ∧ rec.entry = entry := by
    intro entry
    rw [h.heldFor_eq hon hfree]
    simp [Option.filter_eq_some_iff, and_assoc]
  have hway := Register.compile_way s.1 s.2 path inline
  generalize s.1.compile s.2 path inline = outcome at hway ⊢
  cases hway with
  | unresolved hno => cases hoptions.symm.trans hno
  | refused _ hoptions' hno =>
      cases hoptions.symm.trans hoptions'
      cases hticket.symm.trans hno
  | @answered _ _ entry _ hoptions' hticket' hheld =>
      cases hoptions.symm.trans hoptions'
      cases hticket.symm.trans hticket'
      obtain ⟨rec, hlatest, hstamp, hentry⟩ := (hlast entry).1 hheld
      refine ⟨⟨fun _ => ⟨rec, hlatest, hstamp⟩, fun _ => rfl⟩, fun rec' hlatest' _ => ?_⟩
      cases hlatest.symm.trans hlatest'
      rw [← hentry]
      rfl
  | asked messages _ hoptions' hticket' hheld =>
      cases hoptions.symm.trans hoptions'
      cases hticket.symm.trans hticket'
      have hno : ∀ rec, latest t.key past = some rec → rec.ticket.stamp ≠ t.stamp := by
        intro rec hlatest hstamp
        cases hheld.symm.trans ((hlast _).2 ⟨rec, hlatest, hstamp, rfl⟩)
      refine ⟨⟨fun hsame => ?_, fun ⟨rec, hlatest, hstamp⟩ => absurd hstamp (hno rec hlatest)⟩,
        fun rec hlatest hstamp => absurd hstamp (hno rec hlatest)⟩
      rw [Register.invocations_produce] at hsame
      simp [World.send] at hsame
  | uncached _ hoff => cases (h.caching hon).symm.trans hoff

/-- The output that the code of a file comes from: what was recorded last under
the file's key, or what the engine makes now. -/
inductive Origin (past : List Recording) (r : Register) (w : World) (path : FilePath)
    (inline : Option String) : Output → Prop
  | recorded {options : EngineOptions} {t : Ticket} {rec : Recording}
      (hoptions : r.engine.optionsFor r.config.transform path = .ok options)
      (hticket : r.ticket w options path = .ok t) (hlatest : latest t.key past = some rec)
      (hstamp : rec.ticket.stamp = t.stamp)
      (hquiet : (r.compile w path inline).world.invocations = w.invocations) :
      Origin past r w path inline rec.output
  | made {options : EngineOptions} {output : Output} {call : Invocation}
      (hinvoke : r.engine.invoke w.disk options path inline = (.ok output, call))
      (hcalled : (r.compile w path inline).world.invocations = w.invocations ++ [call]) :
      Origin past r w path inline output

/-- Where a store keeps the account of a history, the code and the source map of
a file come from one output. -/
theorem Accounted.origin_of_ok (h : Accounted init past s)
    (hon : (s.2.store s.1.store).enabled = true)
    (hfree : ∀ key, init.get? key = none) {code : String}
    (hok : (s.1.compile s.2 path inline).result = .ok code) :
    ∃ output, Origin past s.1 s.2 path inline output ∧ code = output.code ∧
      (s.1.compile s.2 path inline).register.sourceMap path = output.map := by
  have hway := Register.compile_way s.1 s.2 path inline
  generalize hdone : s.1.compile s.2 path inline = outcome at hway hok ⊢
  cases hway with
  | unresolved => cases hok
  | refused => cases hok
  | @answered _ t entry _ hoptions hticket hheld =>
      rw [h.heldFor_eq hon (hfree t.key)] at hheld
      obtain ⟨rec, hrec, rfl⟩ := Option.map_eq_some_iff.1 hheld
      obtain ⟨hlatest, hstamp⟩ := Option.filter_eq_some_iff.1 hrec
      refine ⟨rec.output, .recorded hoptions hticket hlatest (of_decide_eq_true hstamp) ?_,
        (Except.ok.inj hok).symm, SourceMaps.retrieve_register ..⟩
      rw [hdone]
      rfl
  | asked messages _ hoptions hticket hheld =>
      obtain ⟨output, call, hinvoke, hcode, hregister⟩ := Register.produce_of_ok hok
      rw [World.disk_send] at hinvoke
      refine ⟨output, .made hinvoke ?_, hcode, ?_⟩
      · rw [hdone, Register.invocations_produce, World.disk_send, hinvoke]
        rfl
      · rw [hregister]
        exact SourceMaps.retrieve_register ..
  | uncached _ hoff => cases (h.caching hon).symm.trans hoff

-- =========================================================== main statement

/-- For every run of a register over a store that was empty and was never turned
off, at every file. The engine is not called for the file exactly if something
was recorded under its key and the last such recording has its stamp; then the
code recorded is the answer. Whenever there is an answer, the code and the
source map that is retrieved then are those of one output, which was recorded
so or is what the engine made now. -/
theorem answers_of_history (w : World) (table : ExtensionTable Loader) (engine : Engine) (n : Nat)
    (env : Environment) (workingDirectory : FilePath) (moves : List Move)
    (hempty : (w.store n).entries = ∅) (hwaiting : Awaits (fun _ => True) w)
    (hon : ((run (Register.create w table engine n env workingDirectory) moves).2.store
      n).enabled = true)
    (path : FilePath) (inline : Option String) :
    let begun := Register.create w table engine n env workingDirectory
    let s := run begun moves
    let past := recordings begun moves
    let done := s.1.compile s.2 path inline
    (∀ options t, s.1.engine.optionsFor s.1.config.transform path = .ok options →
      s.1.ticket s.2 options path = .ok t →
      (done.world.invocations = s.2.invocations ↔
        ∃ rec, latest t.key past = some rec ∧ rec.ticket.stamp = t.stamp) ∧
      ∀ rec, latest t.key past = some rec → rec.ticket.stamp = t.stamp →
        done.result = .ok rec.output.code) ∧
    ∀ code, done.result = .ok code →
      ∃ output, Origin past s.1 s.2 path inline output ∧ code = output.code ∧
        done.register.sourceMap path = output.map := by
  intro begun s past done
  have hbegun : Accounted ∅ [] begun := by
    rw [← hempty]
    exact accounted_create w table engine n env workingDirectory hwaiting
  have haccount : Accounted ∅ past s := accounted_run moves hbegun
  have hstore : s.1.store = n := (register_run begun moves).2.2
  have hon' : (s.2.store s.1.store).enabled = true := by
    rw [hstore]
    exact hon
  exact ⟨fun options t hoptions hticket =>
      haccount.compile_iff hon' rfl hoptions hticket inline,
    fun code hok => haccount.origin_of_ok hon' (fun _ => rfl) hok⟩

-- ----------------------------------------------------- there and back again

/-- A file is compiled, written over and compiled, and written back as it was
and compiled. -/
def backAndForth : List Move :=
  [.call (.compile ⟨"/a.js"⟩ none), .edit (.put ⟨"/a.js"⟩ (Utf8.encode "b") 6000),
    .call (.turn 0), .call (.compile ⟨"/a.js"⟩ none),
    .edit (.put ⟨"/a.js"⟩ (Utf8.encode "a") 5000), .load ⟨"/a.js"⟩ none]

/-- The key and the stamp of the file as it was written back. -/
def backTicket : Ticket := ⟨"\x7b\"filename\":\"/a.js\"\x7d:1", .mtime 5⟩

/-- The general statement after the file was written back. The engine was called
for each of the three contents, also for the one that came back, and is not
called again. -/
theorem answers_of_history_backAndForth :
    (Teardown.oneScript.store 0).entries = ∅ ∧ Awaits (fun _ => True) Teardown.oneScript ∧
      let s := run Teardown.living backAndForth
      (s.2.store 0).enabled = true ∧
      (recordings Teardown.living backAndForth).map (·.output.code) = ["a", "b", "a"] ∧
      (s.1.compile s.2 ⟨"/a.js"⟩ none).world.invocations = s.2.invocations ∧
      (s.1.compile s.2 ⟨"/a.js"⟩ none).result = .ok "a" := by
  have hempty : (Teardown.oneScript.store 0).entries = ∅ := rfl
  have hwaiting : Awaits (fun _ => True) Teardown.oneScript := fun _ ht => by cases ht
  have hon : ((run Teardown.living backAndForth).2.store 0).enabled = true := by decide +kernel
  obtain ⟨hexact, -⟩ := answers_of_history Teardown.oneScript ∅ Teardown.scripts 0 {} ⟨"/"⟩
    backAndForth hempty hwaiting hon ⟨"/a.js"⟩ none
  have hticket : (run Teardown.living backAndForth).1.ticket (run Teardown.living backAndForth).2
      ((run Teardown.living backAndForth).1.optionsOf ⟨"/a.js"⟩) ⟨"/a.js"⟩ = .ok backTicket :=
    toOption_eq_some.1 (by decide +kernel)
  have hlatest : (latest backTicket.key (recordings Teardown.living backAndForth)).map
      (fun rec => (rec.ticket.stamp, rec.output.code)) = some (.mtime 5, "a") := by decide +kernel
  obtain ⟨rec, hrec, hcode⟩ := Option.map_eq_some_iff.1 hlatest
  obtain ⟨hstamp, hcode⟩ := Prod.mk.inj hcode
  have hoptions : (run Teardown.living backAndForth).1.engine.optionsFor
      (run Teardown.living backAndForth).1.config.transform ⟨"/a.js"⟩
        = .ok ((run Teardown.living backAndForth).1.optionsOf ⟨"/a.js"⟩) := by
    rw [(register_run Teardown.living backAndForth).1]
    rfl
  obtain ⟨hquiet, hresult⟩ := hexact _ _ hoptions hticket
  refine ⟨hempty, hwaiting, hon, by decide +kernel, hquiet.2 ⟨rec, hrec, hstamp⟩, ?_⟩
  rw [← hcode]
  exact hresult rec hrec hstamp

end Life

end TransformCache
