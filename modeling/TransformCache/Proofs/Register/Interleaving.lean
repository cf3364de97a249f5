/-
Compiles of files that are changed meanwhile.

# Two looks at a file

A compile looks at its file twice. The store is asked with the stamp that the
file shows; and if the engine is called, it reads the text of the file. Between
the two looks the file can be changed, as it can at any other time. So a compile
is taken in two parts here, with one look in each: it is `opened`, and `closed`
if the store had no answer. One right after the other they are the compile
(`settled_opened`). A run is any order of such parts and of other moves.

# Whose code an entry has

Nothing ties the text to the stamp. An entry has the stamp of the first look and
the code of what was read at the second (`Passage.Files`). So its code belongs
to its stamp if the file shows the same stamp at both looks, and it does if
nothing happened in between. This is what holds of all entries and of all that
is answered from the store (`entries_traced`), and no more is true: what is
written between the looks is filed under the stamp of what was there before,
and a stamp is all that is asked for of a file that is written back
(`stamps_astray`).
-/
import TransformCache.Proofs.Register.Recordings
import Mathlib.Data.List.Infix

namespace TransformCache.Interleaving

open Life (Awaits Move)
open Register (Deed Recording Ticket)
open Teardown (State)

variable {s : State} {path : FilePath} {key : String} {entry : Cache.Entry}

-- ==================================================== a compile in two parts

/-- A compile between its two looks at the file. -/
structure Underway where
  path : FilePath
  options : EngineOptions
  ticket : Option Ticket

/-- A register and its world, and the compile that is underway. -/
structure Moment where
  state : State
  underway : Option Underway := none

/-- A compile up to the call of the engine, if it comes to that. The file was
looked at for its stamp. -/
def opened (s : State) (path : FilePath) : Moment :=
  match s.1.consult s.2 path with
  | .error _ => ⟨s, none⟩
  | .ok (.answered entry) =>
    ⟨({ s.1 with maps := s.1.maps.register path entry.map },
      s.2.send (s.1.config.trace ("from cache " ++ path.text))), none⟩
  | .ok (.unanswered options ticket stale) =>
    let missed := if stale then
        s.1.config.trace ("cache miss due to " ++ s.1.config.mode.name ++ " " ++ path.text)
      else []
    ⟨(s.1, s.2.send (missed ++ s.1.config.say ("transforming " ++ path.text))),
      some ⟨path, options, ticket⟩⟩

/-- The rest of a compile. The engine reads the file. -/
def closed (s : State) (u : Underway) : State :=
  let done := s.1.produce s.2 u.path none u.options u.ticket
  (done.register, done.world)

/-- The state when the compile that is underway has gone on to its end. -/
def Moment.settled (t : Moment) : State :=
  match t.underway with
  | none => t.state
  | some u => closed t.state u

/-- The two parts without anything in between are the compile. -/
theorem settled_opened (s : State) (path : FilePath) :
    (opened s path).settled
      = ((s.1.compile s.2 path none).register, (s.1.compile s.2 path none).world) := by
  unfold opened Register.compile
  cases s.1.consult s.2 path with
  | error e => rfl
  | ok consultation =>
      cases consultation with
      | answered entry => rfl
      | unanswered options ticket stale =>
          cases stale with
          | true =>
              simp only [if_true, World.send_send]
              rfl
          | false => rfl

-- ======================================================= what the parts change

/-- Opening a compile sends messages, and may register a source map. -/
theorem opened_cases (s : State) (path : FilePath) :
    ∃ maps messages, (opened s path).state = ({ s.1 with maps }, s.2.send messages) ∧
      ∀ u, (opened s path).underway = some u → u.path = path ∧
        ∃ stale, s.1.consult s.2 path = .ok (.unanswered u.options u.ticket stale) := by
  unfold opened
  cases s.1.consult s.2 path with
  | error e => exact ⟨s.1.maps, [], by rw [World.send_nil], fun u hu => by cases hu⟩
  | ok consultation =>
      cases consultation with
      | answered entry => exact ⟨_, _, rfl, fun u hu => by cases hu⟩
      | unanswered options ticket stale =>
          refine ⟨s.1.maps, _, rfl, fun u hu => ?_⟩
          obtain rfl := Option.some.inj hu
          exact ⟨rfl, stale, rfl⟩

theorem closed_eq (s : State) (u : Underway) :
    closed s u
      = (((s.1.deedOfCall s.2 u.path none [] u.options u.ticket).outcome s.1 s.2).register,
        ((s.1.deedOfCall s.2 u.path none [] u.options u.ticket).outcome s.1 s.2).world) := by
  unfold closed
  rw [← Register.produce_eq, World.send_nil]

/-- What is held after a deed was held before it, or was filed. -/
theorem filed_of_entered {d : Deed} {x : Cache.Store}
    (h : (d.enter x).entries.get? key = some entry) :
    x.entries.get? key = some entry ∨
      ∃ rec, d.filed = some rec ∧ rec.ticket.key = key ∧ rec.entry = entry := by
  unfold Deed.enter at h
  cases hfiled : d.filed with
  | none =>
      rw [hfiled] at h
      exact .inl h
  | some rec =>
      rw [hfiled] at h
      unfold Cache.Store.put at h
      simp only at h
      split at h
      next =>
        rw [Keyed.get?_insert] at h
        split at h
        next hkey => exact .inr ⟨rec, rfl, hkey, Option.some.inj h⟩
        next => exact .inl h
      next => exact .inl h

/-- What a call of the engine files is what it made of the text of the file. -/
theorem made_of_filed {messages : List Message} {options : EngineOptions}
    {ticket : Option Ticket} {rec : Recording}
    (h : (s.1.deedOfCall s.2 path none messages options ticket).filed = some rec) :
    ticket = some rec.ticket ∧ ∃ text, s.2.disk.readText path = .ok text ∧
      s.1.engine.transform text { filename := path, options } = .ok rec.output := by
  unfold Register.deedOfCall Engine.invoke Engine.sourceText at h
  cases hread : s.2.disk.readText path with
  | error reason =>
      simp only [hread] at h
      cases h
  | ok text =>
      simp only [hread] at h
      cases hmade : s.1.engine.transform text { filename := path, options } with
      | error reason =>
          simp only [hmade] at h
          cases h
      | ok output =>
          simp only [hmade] at h
          obtain ⟨t, rfl, rfl⟩ := Option.map_eq_some_iff.1 h
          exact ⟨rfl, text, rfl, hmade⟩

-- ==================================================================== runs

/-- What happens next. -/
inductive Event where
  /-- A compile of a file is opened, if none is underway. -/
  | start (path : FilePath)
  /-- The compile that is underway is closed. -/
  | finish
  /-- Something else happens. Files are compiled by the other two events, so a
  move that compiles one is none. -/
  | move (m : Move)

def Moment.after (t : Moment) : Event → Moment
  | .start path =>
    match t.underway with
    | none => opened t.state path
    | some _ => t
  | .finish => ⟨t.settled, none⟩
  | .move m => if (m.compile? t.state).isSome then t else { t with state := m.apply t.state }

def run (s : State) (events : List Event) : Moment := events.foldl Moment.after ⟨s, none⟩

variable {events : List Event}

theorem run_snoc (s : State) (events : List Event) (e : Event) :
    run s (events ++ [e]) = (run s events).after e := by
  unfold run
  rw [List.foldl_append]
  rfl

/-- A compile in a run, from its first look at the file to its second. -/
structure Passage (s : State) (events : List Event) where
  before : List Event
  path : FilePath
  between : List Event
  after : List Event
  whole : before ++ .start path :: between ++ .finish :: after = events
  unfinished : Event.finish ∉ between

namespace Passage

variable (p : Passage s events)

/-- The state at the first look, and the one at the second. -/
def first : State := (run s p.before).state

def second : State := (run s (p.before ++ .start p.path :: p.between)).state

/-- The mode that the file is looked at in. -/
def mode : Mode := p.first.1.config.mode

/-- The file shows the same stamp at both looks. -/
def Steady : Prop :=
  p.mode.currentStamp p.second.2.disk p.path = p.mode.currentStamp p.first.2.disk p.path

/-- The compile asked for a key with the stamp that the file showed, read a text
from the file afterwards, and filed what the engine made of that text. -/
structure Files (options : EngineOptions) (text key : String) (entry : Cache.Entry) : Prop where
  free : (run s p.before).underway = none
  asked : ∃ stale, p.first.1.consult p.first.2 p.path
    = .ok (.unanswered options (some ⟨key, entry.stamp⟩) stale)
  shown : p.mode.currentStamp p.first.2.disk p.path = .ok entry.stamp
  read : p.second.2.disk.readText p.path = .ok text
  made : s.1.engine.transform text { filename := p.path, options } = .ok ⟨entry.code, entry.map⟩

/-- The same passage in a run that goes on. -/
def extend (e : Event) : Passage s (events ++ [e]) where
  before := p.before
  path := p.path
  between := p.between
  after := p.after ++ [e]
  whole := by simp only [← p.whole, List.append_assoc, List.cons_append]
  unfinished := p.unfinished

end Passage

/-- The code of an entry belongs to its stamp: at some moment of a run the file
held a text that the engine makes the code of, and showed the stamp. -/
def Belongs (s : State) (events : List Event) (mode : Mode) (path : FilePath)
    (options : EngineOptions) (entry : Cache.Entry) : Prop :=
  ∃ before, before <+: events ∧
    let disk := (run s before).state.2.disk
    mode.currentStamp disk path = .ok entry.stamp ∧
      ∃ text, disk.readText path = .ok text ∧
        s.1.engine.transform text { filename := path, options } = .ok ⟨entry.code, entry.map⟩

/-- What was filed in a steady passage belongs to its stamp. -/
theorem Passage.Files.belongs {p : Passage s events} {options : EngineOptions} {text : String}
    (h : p.Files options text key entry) (hsteady : p.Steady) :
    Belongs s events p.mode p.path options entry := by
  refine ⟨p.before ++ .start p.path :: p.between, ?_, hsteady.trans h.shown, text, h.read, h.made⟩
  exact ⟨.finish :: p.after, p.whole⟩

/-- An entry was held at the beginning, or was filed by a compile. -/
def Traced (s : State) (events : List Event) (key : String) (entry : Cache.Entry) : Prop :=
  (s.2.store s.1.store).entries.get? key = some entry ∨
    ∃ (p : Passage s events) (options : EngineOptions) (text : String),
      p.Files options text key entry

theorem Traced.extend (h : Traced s events key entry) (e : Event) :
    Traced s (events ++ [e]) key entry := by
  rcases h with h | ⟨p, options, text, hfiles⟩
  · exact .inl h
  · exact .inr ⟨p.extend e, options, text,
      ⟨hfiles.free, hfiles.asked, hfiles.shown, hfiles.read, hfiles.made⟩⟩

-- ============================================================== the invariant

-- A compile files under the ticket that it was opened with. So while it is
-- underway the run must remember where it was opened, and what was found there.

/-- A compile that is underway was opened in the run, and is as it was. -/
def Opened (s : State) (events : List Event) (u : Underway) : Prop :=
  ∃ before between, before ++ .start u.path :: between = events ∧ Event.finish ∉ between ∧
    (run s before).underway = none ∧
    ∃ stale, (run s before).state.1.consult (run s before).state.2 u.path
      = .ok (.unanswered u.options u.ticket stale)

theorem Opened.extend {u : Underway} {e : Event} (h : Opened s events u) (he : Event.finish ≠ e) :
    Opened s (events ++ [e]) u := by
  obtain ⟨before, between, rfl, hunfinished, hopened⟩ := h
  refine ⟨before, between ++ [e], by simp, ?_, hopened⟩
  simp [hunfinished, he]

/-- What is known after a run. Every entry has a trace, the compile that is
underway was opened, and nothing else waits but flushes. -/
structure Known (s : State) (events : List Event) : Prop where
  awaits : Awaits (fun _ => True) (run s events).state.2
  store : (run s events).state.1.store = s.1.store
  engine : (run s events).state.1.engine = s.1.engine
  entries : ∀ key entry,
    ((run s events).state.2.store s.1.store).entries.get? key = some entry →
      Traced s events key entry
  underway : ∀ u, (run s events).underway = some u → Opened s events u

theorem known_nil (hw : Awaits (fun _ => True) s.2) : Known s [] where
  awaits := hw
  store := rfl
  engine := rfl
  entries _ _ h := .inl h
  underway _ hu := by cases hu

/-- A compile that is opened with a ticket has the stamp of the file in it. -/
theorem shown_of_consult {r : Register} {w : World} {options : EngineOptions} {t : Ticket}
    {stale : Bool} (h : r.consult w path = .ok (.unanswered options (some t) stale)) :
    r.config.mode.currentStamp w.disk path = .ok t.stamp := by
  cases hcaching : r.caching w with
  | false =>
      -- no ticket is made
      rw [Register.consult_of_uncached hcaching] at h
      split at h
      next => cases h
      next => cases h
  | true =>
      rcases Register.consult_of_caching hcaching path with
        ⟨e, hconsult⟩ | ⟨entry, hconsult⟩ | ⟨_, t', _, -, hticket, hconsult⟩
      · cases h.symm.trans hconsult
      · cases h.symm.trans hconsult
      · cases h.symm.trans hconsult
        exact (Register.of_ticket hticket).2

/-- Nothing more is to be known after an event that files nothing. -/
theorem Known.snoc {e : Event} (h : Known s events)
    (hawaits : Awaits (fun _ => True) (run s (events ++ [e])).state.2)
    (hstore : (run s (events ++ [e])).state.1.store = (run s events).state.1.store)
    (hengine : (run s (events ++ [e])).state.1.engine = (run s events).state.1.engine)
    (hentries : ((run s (events ++ [e])).state.2.store s.1.store).entries
      = ((run s events).state.2.store s.1.store).entries)
    (hopened : ∀ u, (run s (events ++ [e])).underway = some u → Opened s (events ++ [e]) u) :
    Known s (events ++ [e]) where
  awaits := hawaits
  store := hstore.trans h.store
  engine := hengine.trans h.engine
  entries key entry hheld := (h.entries key entry (hentries ▸ hheld)).extend e
  underway := hopened

/-- Opening a compile files nothing. -/
theorem Known.start (h : Known s events) (path : FilePath) : Known s (events ++ [.start path]) := by
  have hnow := run_snoc s events (.start path)
  cases hu : (run s events).underway with
  | some u =>
      -- one is underway, and goes on
      have hsame : run s (events ++ [.start path]) = run s events := by
        simpa only [Moment.after, hu] using hnow
      refine h.snoc ?_ ?_ ?_ ?_ fun u' hu' => ?_
      · exact hsame ▸ h.awaits
      · rw [hsame]
      · rw [hsame]
      · rw [hsame]
      · rw [hsame] at hu'
        exact (h.underway u' hu').extend fun heq => by cases heq
  | none =>
      have hnow : run s (events ++ [.start path]) = opened (run s events).state path := by
        simpa only [Moment.after, hu] using hnow
      obtain ⟨maps, messages, hstate, hopened⟩ := opened_cases (run s events).state path
      rw [← hnow] at hstate hopened
      refine h.snoc ?_ ?_ ?_ ?_ fun u hu' => ?_
      · exact hstate ▸ h.awaits
      · rw [hstate]
      · rw [hstate]
      · rw [hstate]
        rfl
      · obtain ⟨rfl, hasked⟩ := hopened u hu'
        exact ⟨events, [], rfl, List.not_mem_nil, hu, hasked⟩

/-- A move that compiles nothing files nothing. -/
theorem Known.move (h : Known s events) (m : Move) : Known s (events ++ [.move m]) := by
  have hnow := run_snoc s events (.move m)
  have hopened : ∀ u, (run s (events ++ [.move m])).underway = some u →
      Opened s (events ++ [.move m]) u := by
    intro u hu
    have hunderway : (run s (events ++ [.move m])).underway = (run s events).underway := by
      simp only [hnow, Moment.after]
      split
      · rfl
      · rfl
    exact (h.underway u (hunderway ▸ hu)).extend fun heq => by cases heq
  cases hcompile : m.compile? (run s events).state with
  | some asked =>
      have hsame : run s (events ++ [.move m]) = run s events := by
        simpa only [Moment.after, hcompile, Option.isSome_some, if_true] using hnow
      refine h.snoc ?_ ?_ ?_ ?_ hopened
      · exact hsame ▸ h.awaits
      · rw [hsame]
      · rw [hsame]
      · rw [hsame]
  | none =>
      have hmoved : (run s (events ++ [.move m])).state = m.apply (run s events).state := by
        simp [hnow, Moment.after, hcompile]
      obtain ⟨hkeeps, hawaits⟩ := Life.keeps_of_compile?_eq_none h.awaits hcompile
      obtain ⟨_, _, _, _, _, hregister⟩ := Life.register_apply (run s events).state m
      refine h.snoc ?_ ?_ ?_ ?_ hopened
      · exact hmoved ▸ hawaits
      · rw [hmoved, hregister]
      · rw [hmoved, hregister]
      · rw [hmoved, ← h.store]
        exact hkeeps.entries

/-- Closing a compile files what the engine made of the file as it is then, or
nothing. -/
theorem Known.finish (h : Known s events) : Known s (events ++ [.finish]) := by
  have hnow : run s (events ++ [.finish]) = ⟨(run s events).settled, none⟩ := run_snoc ..
  have hopened : ∀ u, (run s (events ++ [.finish])).underway = some u →
      Opened s (events ++ [.finish]) u := by
    intro u hu
    rw [hnow] at hu
    cases hu
  cases hu : (run s events).underway with
  | none =>
      have hsame : (run s (events ++ [.finish])).state = (run s events).state := by
        simp only [hnow, Moment.settled, hu]
      refine h.snoc ?_ ?_ ?_ ?_ hopened
      · exact hsame ▸ h.awaits
      · rw [hsame]
      · rw [hsame]
      · rw [hsame]
  | some u =>
      have hdone : (run s (events ++ [.finish])).state = closed (run s events).state u := by
        simp only [hnow, Moment.settled, hu]
      rw [closed_eq] at hdone
      obtain ⟨_, hstore⟩ := Register.store_outcome
        ((run s events).state.1.deedOfCall (run s events).state.2 u.path none [] u.options u.ticket)
        (run s events).state.1 (run s events).state.2
      refine ⟨?_, ?_, ?_, fun key entry hheld => ?_, hopened⟩
      · exact hdone ▸ Life.awaits_outcome h.awaits trivial _
      · rw [hdone]
        exact h.store
      · rw [hdone]
        exact h.engine
      · rw [hdone, ← h.store, hstore] at hheld
        rcases filed_of_entered hheld with hbefore | ⟨rec, hfiled, rfl, rfl⟩
        · rw [h.store] at hbefore
          exact (h.entries key entry hbefore).extend _
        · -- the passage that ends here
          obtain ⟨hticket, text, hread, hmade⟩ := made_of_filed hfiled
          obtain ⟨before, between, rfl, hunfinished, hfree, stale, hasked⟩ := h.underway u hu
          rw [hticket] at hasked
          rw [h.engine] at hmade
          refine .inr ⟨⟨before, u.path, between, [], rfl, hunfinished⟩, u.options, text, ?_⟩
          exact ⟨hfree, ⟨stale, hasked⟩, shown_of_consult hasked, hread, hmade⟩

/-- So much is known after every run. -/
theorem known_run (hw : Awaits (fun _ => True) s.2) (events : List Event) : Known s events := by
  -- by the last event: a trace is told by what was before it
  induction events using List.reverseRecOn with
  | nil => exact known_nil hw
  | append_singleton events e ih =>
      cases e with
      | start path => exact ih.start path
      | finish => exact ih.finish
      | move m => exact ih.move m

-- ============================================================ what follows

/-- Opening compiles leaves the disk alone. -/
theorem disk_of_starts (before more : List Event) (h : ∀ e ∈ more, ∃ path, e = .start path) :
    (run s (before ++ more)).state.2.disk = (run s before).state.2.disk := by
  induction more using List.reverseRecOn with
  | nil => rw [List.append_nil]
  | append_singleton more e ih =>
      obtain ⟨path, rfl⟩ := h e (by simp)
      rw [← ih fun e he => h e (List.mem_append_left _ he), ← List.append_assoc, run_snoc]
      unfold Moment.after
      cases (run s (before ++ more)).underway with
      | some u => rfl
      | none =>
          obtain ⟨maps, messages, hstate, -⟩ := opened_cases (run s (before ++ more)).state path
          simp only [hstate]
          rfl

/-- A file shows the same stamp at both looks if nothing happened in between. -/
theorem Passage.steady_of_unmoved (p : Passage s events) (h : ∀ m, Event.move m ∉ p.between) :
    p.Steady := by
  have hdisk : p.second.2.disk = p.first.2.disk := by
    refine disk_of_starts p.before (.start p.path :: p.between) fun e he => ?_
    rcases List.mem_cons.1 he with rfl | hbetween
    · exact ⟨p.path, rfl⟩
    · cases e with
      | start path => exact ⟨path, rfl⟩
      | finish => exact absurd hbetween p.unfinished
      | move m => exact absurd hbetween (h m)
  unfold Passage.Steady
  rw [hdisk]

/-- A compile that answers without the engine has an entry with the stamp that
the file shows. -/
theorem answered_of_not_asks {r : Register} {w : World} {code : String}
    (hok : (r.compile w path none).result = .ok code) (hquiet : r.asks w path none = false) :
    ∃ key entry, (w.store r.store).entries.get? key = some entry ∧ code = entry.code ∧
      r.config.mode.currentStamp w.disk path = .ok entry.stamp := by
  have hsame : ¬ w.invocations.length < (r.compile w path none).world.invocations.length :=
    of_decide_eq_false hquiet
  have hcalled : ∀ (messages : List Message) (options : EngineOptions) (ticket : Option Ticket),
      w.invocations.length
        < (r.produce (w.send messages) path none options ticket).world.invocations.length := by
    intro messages options ticket
    rw [Register.invocations_produce, List.length_append]
    exact Nat.lt_succ_self _
  have hway := Register.compile_way r w path none
  generalize r.compile w path none = outcome at hway hok hsame
  cases hway with
  | unresolved => cases hok
  | refused => cases hok
  | @answered _ t entry hcaching _ hticket hheld =>
      have hon : (w.store r.store).enabled = true := (Bool.and_eq_true_iff.1 hcaching).2
      obtain ⟨hentry, hholds⟩ := Option.filter_eq_some_iff.1 hheld
      unfold Cache.Store.lookUp at hentry
      rw [if_pos hon] at hentry
      refine ⟨t.key, entry, hentry, (Except.ok.inj hok).symm, ?_⟩
      rw [show entry.stamp = t.stamp from of_decide_eq_true hholds]
      exact (Register.of_ticket hticket).2
  | asked messages => exact absurd (hcalled _ _ _) hsame
  | uncached messages => exact absurd (hcalled _ _ _) hsame

-- ========================================================== main statement

/-- For every run of compiles that are opened and closed while anything else
happens. An entry of the store was there at the beginning, or was filed by a
compile with the stamp of its first look and the code of what was read at its
second. Then its code belongs to its stamp if the file shows the same stamp at
both looks, and so it does if nothing happened between them. And what a file is
answered with at the end, if the engine is not called, is the code of such an
entry with the stamp that the file shows. -/
theorem entries_traced (s : State) (hwaiting : Awaits (fun _ => True) s.2)
    (events : List Event) :
    let now := (run s events).state
    (∀ key entry, (now.2.store now.1.store).entries.get? key = some entry →
      Traced s events key entry) ∧
    (∀ (p : Passage s events) options text key entry, p.Files options text key entry →
      p.Steady → Belongs s events p.mode p.path options entry) ∧
    (∀ p : Passage s events, (∀ m, Event.move m ∉ p.between) → p.Steady) ∧
    ∀ path code, (now.1.compile now.2 path none).result = .ok code →
      now.1.asks now.2 path none = false →
      ∃ key entry, Traced s events key entry ∧ code = entry.code ∧
        now.1.config.mode.currentStamp now.2.disk path = .ok entry.stamp := by
  intro now
  have hknown := known_run hwaiting events
  have hentries : ∀ key entry, (now.2.store now.1.store).entries.get? key = some entry →
      Traced s events key entry := by
    intro key entry hheld
    rw [hknown.store] at hheld
    exact hknown.entries key entry hheld
  refine ⟨hentries, fun p options text key entry hfiles => hfiles.belongs,
    fun p => p.steady_of_unmoved, fun path code hok hquiet => ?_⟩
  obtain ⟨key, entry, hheld, hcode, hshown⟩ := answered_of_not_asks hok hquiet
  exact ⟨key, entry, hentries key entry hheld, hcode, hshown⟩

-- --------------------------------------------------- a file that is left alone

/-- A file is compiled, written over, and written back as it was. -/
def restored : List Event :=
  [.start ⟨"/a.js"⟩, .finish, .move (.edit (.put ⟨"/a.js"⟩ (Utf8.encode "b") 6000)),
    .move (.edit (.put ⟨"/a.js"⟩ (Utf8.encode "a") 5000))]

/-- The general statement for a compile that nothing came into. The file is
answered with the code of its entry once it is written back. -/
theorem entries_traced_restored :
    Awaits (fun _ => True) Teardown.living.2 ∧
      let now := (run Teardown.living restored).state
      now.2.disk.readText ⟨"/a.js"⟩ = .ok "a" ∧
        (now.1.compile now.2 ⟨"/a.js"⟩ none).result = .ok "a" ∧
        ∃ key entry, Traced Teardown.living restored key entry ∧ "a" = entry.code ∧
          now.1.config.mode.currentStamp now.2.disk ⟨"/a.js"⟩ = .ok entry.stamp := by
  have hwaiting : Awaits (fun _ => True) Teardown.living.2 := fun _ ht => by cases ht
  obtain ⟨-, -, -, hanswered⟩ := entries_traced Teardown.living hwaiting restored
  have hok := toOption_eq_some.1 (show ((run Teardown.living restored).state.1.compile
    (run Teardown.living restored).state.2 ⟨"/a.js"⟩ none).result.toOption = some "a" by
      decide +kernel)
  exact ⟨hwaiting, toOption_eq_some.1 (by decide +kernel), hok,
    hanswered _ _ hok (by decide +kernel)⟩

-- ---------------------------------------------- a file that is changed meanwhile

/-- A file is written over between the two looks of a compile, and written back
as it was. -/
def raced : List Event :=
  [.start ⟨"/a.js"⟩, .move (.edit (.put ⟨"/a.js"⟩ (Utf8.encode "b") 6000)), .finish,
    .move (.edit (.put ⟨"/a.js"⟩ (Utf8.encode "a") 5000))]

/-- A file is compiled, and written over at what is taken for the same time. -/
def overwritten : List Event :=
  [.start ⟨"/a.js"⟩, .finish, .move (.edit (.put ⟨"/a.js"⟩ (Utf8.encode "b") 5000))]

/-- The register goes by checksums. -/
def checking : State :=
  (run Teardown.living [.move (.call (.configure
    { cacheSourceRoot := some ⟨"/"⟩, projectName := some "app" }))]).state

/-- There is an entry whose code never belonged to its stamp, and the file, which
was written back as it was, is answered with that code. -/
def Astray (s : State) : Prop :=
  let now := (run s raced).state
  (∃ key entry, (now.2.store 0).entries.get? key = some entry ∧
    ∀ options, ¬ Belongs s raced s.1.config.mode ⟨"/a.js"⟩ options entry) ∧
  now.2.disk.readText ⟨"/a.js"⟩ = .ok "a" ∧
  (now.1.compile now.2 ⟨"/a.js"⟩ none).result = .ok "b"

/-- An engine that hands over texts hands over none that was not there. -/
theorem not_belongs_of_scripts (hengine : s.1.engine = Teardown.scripts) {mode : Mode}
    (hnever : ∀ before ∈ events.inits,
      ¬ ((mode.currentStamp (run s before).state.2.disk path).toOption = some entry.stamp ∧
        ((run s before).state.2.disk.readText path).toOption = some entry.code))
    (options : EngineOptions) : ¬ Belongs s events mode path options entry := by
  rintro ⟨before, hbefore, hshown, text, hread, hmade⟩
  rw [hengine] at hmade
  obtain rfl : text = entry.code := congrArg Output.code (Except.ok.inj hmade)
  exact hnever before ((List.mem_inits _ _).2 hbefore)
    ⟨toOption_eq_some.2 hshown, toOption_eq_some.2 hread⟩

/-- What there is to see of an entry that went astray. -/
theorem astray_of_held (key : String) (stamp : Cache.Stamp)
    (hengine : s.1.engine = Teardown.scripts)
    (hheld : (((run s raced).state.2.store 0).entries.get? key).map
      (fun entry => (entry.code, entry.stamp)) = some ("b", stamp))
    (hnever : ∀ before ∈ raced.inits, let disk := (run s before).state.2.disk
      ¬ ((s.1.config.mode.currentStamp disk ⟨"/a.js"⟩).toOption = some stamp ∧
        (disk.readText ⟨"/a.js"⟩).toOption = some "b"))
    (hread : ((run s raced).state.2.disk.readText ⟨"/a.js"⟩).toOption = some "a")
    (hanswer : ((run s raced).state.1.compile (run s raced).state.2 ⟨"/a.js"⟩ none).result.toOption
      = some "b") :
    Astray s := by
  obtain ⟨entry, hentry, hshape⟩ := Option.map_eq_some_iff.1 hheld
  obtain ⟨hcode, hstamp⟩ := Prod.mk.inj hshape
  refine ⟨⟨key, entry, hentry, not_belongs_of_scripts hengine fun before hbefore => ?_⟩,
    toOption_eq_some.1 hread, toOption_eq_some.1 hanswer⟩
  rw [hcode, hstamp]
  exact hnever before hbefore

/-- By times and by checksums alike, what is written between the two looks is
filed under the stamp of what was there before. And by times a file that is
written over at the same time is answered with the code of what it held. -/
theorem stamps_astray :
    Astray Teardown.living ∧ Astray checking ∧
      let now := (run Teardown.living overwritten).state
      now.2.disk.readText ⟨"/a.js"⟩ = .ok "b" ∧
        (now.1.compile now.2 ⟨"/a.js"⟩ none).result = .ok "a" := by
  refine ⟨?_, ?_, toOption_eq_some.1 (by decide +kernel), toOption_eq_some.1 (by decide +kernel)⟩
  · exact astray_of_held "\x7b\"filename\":\"/a.js\"\x7d:1" (.mtime 5) rfl
      (by decide +kernel) (by decide +kernel) (by decide +kernel) (by decide +kernel)
  · exact astray_of_held "\x7b\"filename\":\"app:a.js\"\x7d:1"
      (.checksum "17762fddd969a453925d65717ac3eea2") rfl
      (by decide +kernel) (by decide +kernel) (by decide +kernel) (by decide +kernel)

end TransformCache.Interleaving
