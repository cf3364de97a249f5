/-
What a compile does, apart from the world that it is done in.

A compile finds out what the store has, and may call the engine. All that it
then does to its world is written down in a `Deed`: what it answers, the source
maps that the register is left with, the messages that are sent, the calls of
the engine and what is filed (`compile_eq`).

What a compile does depends on little of the world. It is what is found at the
path, the time that a directory shows, and the entries of the register's store
while this is on. In two worlds with the same `View` of a path a compile does
the same (`deed_congr`), whatever else is on the disk, in other stores, or
waits to be flushed.
-/
import TransformCache.Proofs.Cache.Session
import TransformCache.Proofs.Register.Calls
import TransformCache.Proofs.World

namespace TransformCache.Register

variable {r : Register} {v w : World} {path : FilePath} {inline : Option String}

-- ================================================================== deeds

/-- A result of the engine, and the ticket that it is filed under. -/
structure Recording where
  ticket : Ticket
  output : Output

/-- The entry that a result is kept as. -/
def Recording.entry (rec : Recording) : Cache.Entry :=
  ⟨rec.output.code, rec.output.map, rec.ticket.stamp⟩

/-- What a compile answers, and all that it does. -/
structure Deed where
  result : Except Error String
  maps : SourceMaps
  messages : List Message := []
  calls : List Invocation := []
  filed : Option Recording := none

/-- A world with messages and calls of the engine in it. -/
def told (w : World) (messages : List Message) (calls : List Invocation) : World :=
  { w with messages := w.messages ++ messages, invocations := w.invocations ++ calls }

/-- The outcome of a deed in a world. -/
def Deed.outcome (d : Deed) (r : Register) (w : World) : Outcome String where
  result := d.result
  register := { r with maps := d.maps }
  world := match d.filed with
    | some rec => r.file (told w d.messages d.calls) rec.ticket rec.output
    | none => told w d.messages d.calls

/-- What a call of the engine does, after some messages. -/
def deedOfCall (r : Register) (w : World) (path : FilePath) (inline : Option String)
    (messages : List Message) (options : EngineOptions) (ticket : Option Ticket) : Deed :=
  let (result, call) := r.engine.invoke w.disk options path inline
  match result with
  | .error reason =>
    { result := .error (.transform reason), maps := r.maps, messages, calls := [call] }
  | .ok output =>
    { result := .ok output.code
      maps := r.maps.register path output.map
      messages
      calls := [call]
      filed := ticket.map (⟨·, output⟩) }

/-- What a compile does. -/
def deed (r : Register) (w : World) (path : FilePath) (inline : Option String) : Deed :=
  match r.consult w path with
  | .error e => { result := .error e, maps := r.maps }
  | .ok (.answered entry) =>
    { result := .ok entry.code
      maps := r.maps.register path entry.map
      messages := r.config.trace ("from cache " ++ path.text) }
  | .ok (.unanswered options ticket stale) =>
    let missed := if stale then
        r.config.trace ("cache miss due to " ++ r.config.mode.name ++ " " ++ path.text)
      else []
    r.deedOfCall w path inline (missed ++ r.config.say ("transforming " ++ path.text)) options
      ticket

theorem calls_deedOfCall (messages : List Message) (options : EngineOptions)
    (ticket : Option Ticket) :
    (r.deedOfCall w path inline messages options ticket).calls
      = [(r.engine.invoke w.disk options path inline).2] := by
  unfold deedOfCall
  simp only
  split
  · rfl
  · rfl

theorem filed_deedOfCall (messages : List Message) (options : EngineOptions)
    (t : Ticket) :
    (r.deedOfCall w path inline messages options (some t)).filed
      = (r.engine.invoke w.disk options path inline).1.toOption.map (Recording.mk t) := by
  unfold deedOfCall
  simp only
  cases (r.engine.invoke w.disk options path inline).1 with
  | error reason => rfl
  | ok output => rfl

theorem told_nil (w : World) : told w [] [] = w := by
  simp [told]

theorem produce_eq (r : Register) (w : World) (path : FilePath) (inline : Option String)
    (messages : List Message) (options : EngineOptions) (ticket : Option Ticket) :
    r.produce (w.send messages) path inline options ticket
      = (r.deedOfCall w path inline messages options ticket).outcome r w := by
  unfold produce deedOfCall Deed.outcome
  simp only [World.disk_send]
  cases (r.engine.invoke w.disk options path inline).1 with
  | error reason => rfl
  | ok output =>
      cases ticket with
      | none => rfl
      | some t => rfl

theorem compile_eq (r : Register) (w : World) (path : FilePath) (inline : Option String) :
    r.compile w path inline = (r.deed w path inline).outcome r w := by
  unfold compile deed
  cases r.consult w path with
  | error e => simp only [Deed.outcome, told_nil]
  | ok consultation =>
      cases consultation with
      | answered entry => simp [Deed.outcome, told, World.send]
      | unanswered options ticket stale =>
          simp only
          rw [← produce_eq]
          cases stale with
          | true => simp only [if_true, World.send_send]
          | false => rfl

/-- Of the stores and the tasks a deed changes nothing but that it files what it
files. -/
theorem session_outcome (d : Deed) (r : Register) (w : World) :
    (d.outcome r w).world.session
      = match d.filed with
        | some rec => (r.file w rec.ticket rec.output).session
        | none => w.session := by
  unfold Deed.outcome
  cases d.filed with
  | none => rfl
  | some rec => exact session_file (v := told w d.messages d.calls) (w := w) rfl rec.ticket rec.output

/-- Filing sends no messages. -/
theorem messages_file (r : Register) (w : World) (t : Ticket) (output : Output) :
    (r.file w t output).messages = w.messages := World.messages_scheduleFlush

/-- Filing is no call of the engine. -/
theorem invocations_file (r : Register) (w : World) (t : Ticket) (output : Output) :
    (r.file w t output).invocations = w.invocations := World.invocations_scheduleFlush

theorem messages_outcome (d : Deed) (r : Register) (w : World) :
    (d.outcome r w).world.messages = w.messages ++ d.messages := by
  unfold Deed.outcome
  cases d.filed with
  | none => rfl
  | some rec => exact messages_file ..

theorem invocations_outcome (d : Deed) (r : Register) (w : World) :
    (d.outcome r w).world.invocations = w.invocations ++ d.calls := by
  unfold Deed.outcome
  cases d.filed with
  | none => rfl
  | some rec => exact invocations_file ..

/-- A store with what a deed files in it. -/
def Deed.enter (d : Deed) (s : Cache.Store) : Cache.Store :=
  match d.filed with
  | some rec => s.put rec.ticket.key rec.entry
  | none => s

/-- A deed leaves the disk alone. -/
theorem disk_outcome (d : Deed) (r : Register) (w : World) :
    (d.outcome r w).world.disk = w.disk := by
  unfold World.disk
  rw [session_outcome]
  cases d.filed with
  | none => rfl
  | some rec => exact World.disk_scheduleFlush

/-- The store of the register is left with what a deed files, and may wait for a
flush then. -/
theorem store_outcome (d : Deed) (r : Register) (w : World) :
    ∃ flushPending, (d.outcome r w).world.store r.store
      = { d.enter (w.store r.store) with flushPending } := by
  unfold World.store Deed.enter
  rw [session_outcome]
  cases d.filed with
  | none => exact ⟨_, rfl⟩
  | some rec =>
      show ∃ flushPending, (World.scheduleFlush _ r.store).store r.store = _
      rw [World.store_scheduleFlush_self, World.store_modifyStore_self]
      unfold Cache.Store.requestFlush
      split
      · exact ⟨true, rfl⟩
      · exact ⟨_, rfl⟩

theorem Deed.path_enter (d : Deed) (s : Cache.Store) : (d.enter s).path = s.path := by
  unfold enter Cache.Store.put
  split
  · split
    · rfl
    · rfl
  · rfl

theorem Deed.enabled_enter (d : Deed) (s : Cache.Store) : (d.enter s).enabled = s.enabled := by
  unfold enter
  split
  · exact Cache.Store.enabled_put ..
  · rfl

/-- In stores with the same entries, both on or both off, the same is entered. -/
theorem Deed.entries_enter (d : Deed) {s s' : Cache.Store} (henabled : s.enabled = s'.enabled)
    (hentries : s.entries = s'.entries) : (d.enter s).entries = (d.enter s').entries := by
  unfold enter Cache.Store.put
  rw [henabled]
  split
  · split
    · simp only [hentries]
    · exact hentries
  · exact hentries

-- ============================================================ what is seen

/-- Two worlds in which the same is found at a path and held by a store. -/
structure View (n : Nat) (path : FilePath) (v w : World) : Prop where
  found : v.disk.lookUp path = w.disk.lookUp path
  clock : v.disk.clock = w.disk.clock
  enabled : (v.store n).enabled = (w.store n).enabled
  entries : (v.store n).entries = (w.store n).entries

variable {n : Nat}

theorem View.read_eq (h : View n path v w) : v.disk.read path = w.disk.read path := by
  unfold FileSystem.read
  rw [h.found]

theorem View.readText_eq (h : View n path v w) :
    v.disk.readText path = w.disk.readText path := by
  unfold FileSystem.readText
  rw [h.read_eq]

theorem View.stamp_eq (h : View n path v w) (mode : Mode) :
    mode.currentStamp v.disk path = mode.currentStamp w.disk path := by
  cases mode with
  | mtime =>
      unfold Mode.currentStamp fileTime FileSystem.modified
      rw [h.found, h.clock]
  | checksum root project =>
      unfold Mode.currentStamp fileChecksum
      rw [h.read_eq]

theorem View.invoke_eq (h : View n path v w) (e : Engine) (options : EngineOptions)
    (inline : Option String) :
    e.invoke v.disk options path inline = e.invoke w.disk options path inline := by
  unfold Engine.invoke Engine.sourceText
  rw [h.readText_eq]

theorem View.lookUp_store (h : View n path v w) (key : String) :
    (v.store n).lookUp key = (w.store n).lookUp key := by
  unfold Cache.Store.lookUp
  rw [h.enabled, h.entries]

theorem View.consult_eq (h : View r.store path v w) : r.consult v path = r.consult w path := by
  have hcaching : r.caching v = r.caching w := by
    unfold caching
    rw [h.enabled]
  have hticket : ∀ options, r.ticket v options path = r.ticket w options path := by
    intro options
    unfold ticket
    rw [h.stamp_eq]
  unfold consult
  simp only [hcaching, hticket, h.lookUp_store]

/-- With the same view of a path, a compile does the same. -/
theorem deed_congr (h : View r.store path v w) (inline : Option String) :
    r.deed v path inline = r.deed w path inline := by
  unfold deed deedOfCall
  simp only [h.consult_eq, h.invoke_eq]

end TransformCache.Register
