/-
What keeps the results of two registers apart that share a store's file.

The keys of a register end in its engine's version and its discriminator, so
registers that differ in one of them look for other keys and file under other
keys. That is what they should do, and it holds as long as the two pairs can be
told apart in a key. Pairs with a colon in the wrong place cannot: then two
registers that differ have the same keys, and the second is answered with what
the engine of the first made.

`results_apart` says for the lives of two registers, one after the other, what
is the case. Under the same configuration their keys for a file are the same
exactly if their pairs are `Indistinct`; and if these are not, whatever the two
are configured with, none of the keys that the first filed under is one that
the second looks for, so the second only ever finds what it recorded itself.
-/
import TransformCache.Proofs.Cache.StoreFile
import TransformCache.Proofs.CacheKey.Tail
import TransformCache.Proofs.Register.Recordings

namespace TransformCache.Life

open Register (Recording Ticket)
open Teardown (State)
open CacheKey (Spliced)

variable {s s' : State} {r r' : Register} {w w' : World} {path path' : FilePath}
  {options options' : EngineOptions} {t t' : Ticket}

-- ===================================================================== keys

/-- Versions and discriminators that keys cannot tell apart: those that are the
same, and those that are spliced. -/
def Indistinct (version : String) (discriminator : Option String) (version' : String)
    (discriminator' : Option String) : Prop :=
  (version = version' ∧ discriminator = discriminator') ∨
    Spliced version discriminator version' discriminator' ∨
    Spliced version' discriminator' version discriminator

/-- Registers with one key have indistinct engines and environments. -/
theorem indistinct_of_key_eq (h : r.ticket w options path = .ok t)
    (h' : r'.ticket w' options' path' = .ok t') (hkey : t.key = t'.key) :
    Indistinct r.engine.version r.env.discriminator r'.engine.version r'.env.discriminator := by
  have hbuild := (Register.of_ticket h).1
  rw [hkey] at hbuild
  exact CacheKey.tail_eq_iff.1 (CacheKey.tail_of_build hbuild (Register.of_ticket h').1)

/-- Registers that are configured alike have one key for a file exactly if their
engines and environments are indistinct. -/
theorem key_eq_iff (h : r.ticket w options path = .ok t) (h' : r'.ticket w' options path = .ok t')
    (hmode : r.config.mode = r'.config.mode)
    (htransform : r.config.transform = r'.config.transform) :
    t.key = t'.key ↔
      Indistinct r.engine.version r.env.discriminator r'.engine.version r'.env.discriminator := by
  refine ⟨indistinct_of_key_eq h h', fun hsame => ?_⟩
  have hoptions : r.keyOptions options = r'.keyOptions options := by
    unfold Register.keyOptions
    rw [hmode, htransform]
  have hbuild := (Register.of_ticket h).1
  rw [hoptions, hmode] at hbuild
  exact (CacheKey.build_eq_iff_tail hbuild (Register.of_ticket h').1).2 (CacheKey.tail_eq_iff.2 hsame)

-- ============================================================== recorded keys

theorem ticket_of_recorded {inline : Option String} {rec : Recording}
    (h : r.recorded w path inline = some rec) :
    ∃ options, r.ticket w options path = .ok rec.ticket := by
  unfold Register.recorded at h
  split at h
  · obtain ⟨options, -, h⟩ := Option.bind_eq_some_iff.1 h
    obtain ⟨ticket, hticket, h⟩ := Option.bind_eq_some_iff.1 h
    obtain ⟨output, -, rfl⟩ := Option.map_eq_some_iff.1 h
    exact ⟨options, toOption_eq_some.1 hticket⟩
  · cases h

/-- What a run records is filed under keys of the register's engine and
environment. -/
theorem ticket_of_recordings (moves : List Move) :
    ∀ {s : State}, ∀ rec ∈ recordings s moves, ∃ r w path options,
      Register.ticket r w options path = .ok rec.ticket ∧ r.engine = s.1.engine ∧
        r.env = s.1.env := by
  induction moves with
  | nil => intro s rec hrec; cases hrec
  | cons m rest ih =>
      intro s rec hrec
      rcases List.mem_append.1 hrec with hrec | hrec
      · obtain ⟨asked, -, hrecorded⟩ := Option.bind_eq_some_iff.1 (Option.mem_toList.1 hrec)
        obtain ⟨options, hticket⟩ := ticket_of_recorded hrecorded
        exact ⟨s.1, _, _, options, hticket, rfl, rfl⟩
      · obtain ⟨r, w, path, options, hticket, hengine, henv⟩ := ih rec hrec
        obtain ⟨hengine', henv', -⟩ := register_run s [m]
        exact ⟨r, w, path, options, hticket, hengine.trans hengine', henv.trans henv'⟩

-- =========================================================== main statement

/-- For every two lives of registers, the second after the first or not. Where
they are configured alike, their keys for a file with the same options are the
same exactly if their engines and environments are indistinct. Where these are
not, no key that the first filed under is the second's for any file; and if the
second began with a store that held what the first recorded and nothing else,
it is answered without its engine exactly if it recorded the answer itself. -/
theorem results_apart (w : World) (table : ExtensionTable Loader) (engine : Engine) (n : Nat)
    (env : Environment) (workingDirectory : FilePath) (moves : List Move) (w' : World)
    (table' : ExtensionTable Loader) (engine' : Engine) (n' : Nat) (env' : Environment)
    (workingDirectory' : FilePath) (moves' : List Move) :
    let begun := Register.create w table engine n env workingDirectory
    let begun' := Register.create w' table' engine' n' env' workingDirectory'
    let s := run begun moves
    let s' := run begun' moves'
    let past := recordings begun moves
    let indistinct :=
      Indistinct engine.version env.discriminator engine'.version env'.discriminator
    (s.1.config.mode = s'.1.config.mode → s.1.config.transform = s'.1.config.transform →
      ∀ path options t t', s.1.ticket s.2 options path = .ok t →
        s'.1.ticket s'.2 options path = .ok t' → (t.key = t'.key ↔ indistinct)) ∧
    (¬ indistinct → ∀ path options t', s'.1.ticket s'.2 options path = .ok t' →
      (∀ rec ∈ past, rec.ticket.key ≠ t'.key) ∧
      ((∀ key, ((w'.store n').entries.get? key).isSome = true →
          ∃ rec ∈ past, rec.ticket.key = key) →
        Awaits (fun _ => True) w' → (s'.2.store n').enabled = true →
        s'.1.engine.optionsFor s'.1.config.transform path = .ok options → ∀ inline,
        ((s'.1.compile s'.2 path inline).world.invocations = s'.2.invocations ↔
          ∃ rec, latest t'.key (recordings begun' moves') = some rec ∧
            rec.ticket.stamp = t'.stamp))) := by
  intro begun begun' s s' past indistinct
  obtain ⟨hengine, henv, -⟩ := register_run begun moves
  obtain ⟨hengine', henv', hstore'⟩ := register_run begun' moves'
  have hpair : Indistinct s.1.engine.version s.1.env.discriminator s'.1.engine.version
      s'.1.env.discriminator = indistinct := by
    rw [hengine, henv, hengine', henv']
    rfl
  refine ⟨fun hmode htransform path options t t' ht ht' => ?_,
    fun hdistinct path options t' ht' => ?_⟩
  · rw [← hpair]
    exact key_eq_iff ht ht' hmode htransform
  · have hapart : ∀ rec ∈ past, rec.ticket.key ≠ t'.key := by
      intro rec hrec hkey
      obtain ⟨r, v, path', options', hticket, hr, hrenv⟩ := ticket_of_recordings moves rec hrec
      have hsame := indistinct_of_key_eq hticket ht' hkey
      rw [hr, hrenv, hengine', henv'] at hsame
      exact hdistinct hsame
    refine ⟨hapart, fun hheld hwaiting hon hoptions inline => ?_⟩
    have hfree : (w'.store n').entries.get? t'.key = none := by
      cases hfound : (w'.store n').entries.get? t'.key with
      | none => rfl
      | some entry =>
          obtain ⟨rec, hrec, hkey⟩ := hheld t'.key (by rw [hfound]; rfl)
          exact absurd hkey (hapart rec hrec)
    have haccount := accounted_run moves'
      (accounted_create w' table' engine' n' env' workingDirectory' hwaiting)
    have hon' : (s'.2.store s'.1.store).enabled = true := by
      rw [hstore']
      exact hon
    exact (haccount.compile_iff hon' hfree hoptions ht' inline).1

-- -------------------------------------------------- one after the other

/-- A world with a further store, which holds some entries. -/
def filled (w : World) (path : FilePath) (entries : Keyed Cache.Entry) : World :=
  w.onShelf fun x =>
    { x.setStore x.made { Cache.Store.new path with entries } with made := x.made + 1 }

/-- A store that is opened over what another flushed holds what that one holds, if
this comes back from the file as it is. -/
theorem addStore_eq_filled {entries : Keyed Cache.Entry} {storePath : FilePath}
    (hread : w.disk.read storePath = .ok (Cache.entriesFile entries))
    (h : ∀ m ∈ entries.members, m.2.map = none ∧ m.2.stamp.Fits) :
    (w.addStore (.opened storePath)).2
      = filled w storePath (entries.map Cache.Entry.reloaded) := by
  have hplain : ∀ m ∈ entries.members, m.2.Plain := by
    intro m hm
    refine ⟨(h m hm).2, fun map hsome => ?_⟩
    rw [(h m hm).1] at hsome
    cases hsome
  have hdepth := (Cache.depth_entriesJson_le_iff entries).2 fun m hm => by
    rw [Cache.Entry.mapNesting, (h m hm).1]
    exact Nat.zero_le _
  have hopened := Cache.openAt_of_plain hread hplain
    (fun m hm => Cache.Entry.unmarked_of_map_eq_none (h m hm).1) hdepth
  unfold World.addStore Cache.Shelf.add Cache.Shelf.build filled World.onShelf
  simp only
  rw [show Cache.Store.openAt storePath w.session.host.disk = _ from hopened]

theorem store_filled (w : World) (path : FilePath) (entries : Keyed Cache.Entry) {n : Nat}
    (hn : w.session.host.made = n) :
    ((filled w path entries).store n).entries = entries := by
  have hstore : (filled w path entries).store n = { Cache.Store.new path with entries } :=
    if_pos hn.symm
  rw [hstore]

/-- An engine that writes its version before a text. -/
def versioned (version : String) : Engine where
  version := version
  extensions := [".js"]
  transform text _ := .ok ⟨version ++ "|" ++ text, none⟩

/-- The first of two registers, over one file and a store's file that is not
there. -/
def earlier (version : String) (discriminator : Option String) : State :=
  Register.create Teardown.oneScript ∅ (versioned version) 0 { discriminator } ⟨"/"⟩

/-- It compiles the file and flushes. -/
def filing : List Move := [.call (.compile ⟨"/a.js"⟩ none), .flush]

/-- The world that it leaves. -/
def left (version : String) (discriminator : Option String) : World :=
  (run (earlier version discriminator) filing).2

/-- Its store is on and the only one, and its entries, which have no maps, are in
the file. -/
def Flushed (version : String) (discriminator : Option String) : Prop :=
  let w := left version discriminator
  (w.store 0).enabled = true ∧ w.session.host.made = 1 ∧
    (w.disk.read ⟨"/store"⟩).toOption = some (Cache.entriesFile (w.store 0).entries) ∧
    ∀ m ∈ (w.store 0).entries.members, m.2.map.isNone = true ∧ m.2.stamp.Fits

instance (version : String) (discriminator : Option String) :
    Decidable (Flushed version discriminator) := inferInstanceAs (Decidable (_ ∧ _))

/-- The world with a store that is opened over the same file. -/
def reopened (version : String) (discriminator : Option String) : World :=
  ((left version discriminator).addStore (.opened ⟨"/store"⟩)).2

/-- The entries that are read from it. -/
def kept (version : String) (discriminator : Option String) : Keyed Cache.Entry :=
  ((left version discriminator).store 0).entries.map Cache.Entry.reloaded

theorem reopened_eq {version : String} {discriminator : Option String}
    (h : Flushed version discriminator) :
    reopened version discriminator
      = filled (left version discriminator) ⟨"/store"⟩ (kept version discriminator) := by
  obtain ⟨-, -, hread, hentries⟩ := h
  exact addStore_eq_filled (toOption_eq_some.1 hread) fun m hm =>
    ⟨Option.isNone_iff_eq_none.1 (hentries m hm).1, (hentries m hm).2⟩

theorem accounted_earlier (version : String) (discriminator : Option String) :
    Accounted ∅ (recordings (earlier version discriminator) filing)
      (run (earlier version discriminator) filing) := by
  have hempty : (Teardown.oneScript.store 0).entries = ∅ := rfl
  have hbegun : Accounted ∅ [] (earlier version discriminator) := by
    rw [← hempty]
    exact accounted_create Teardown.oneScript ∅ (versioned version) 0 { discriminator } ⟨"/"⟩
      fun _ ht => by cases ht
  have haccount := accounted_run filing hbegun
  rw [List.nil_append] at haccount
  exact haccount

/-- The store that is opened holds what the first register recorded. -/
theorem recorded_of_kept {version : String} {discriminator : Option String}
    (hon : ((left version discriminator).store 0).enabled = true) {key : String}
    (hkey : ((kept version discriminator).get? key).isSome = true) :
    ∃ rec ∈ recordings (earlier version discriminator) filing, rec.ticket.key = key := by
  have hstore : (run (earlier version discriminator) filing).1.store = 0 :=
    (register_run (earlier version discriminator) filing).2.2
  have haccount := @Accounted.recorded_of_held _ _ (accounted_earlier version discriminator)
  rw [hstore] at haccount
  unfold kept at hkey
  rw [Keyed.get?_map, Option.isSome_map] at hkey
  obtain ⟨entry, hentry⟩ := Option.isSome_iff_exists.1 hkey
  exact haccount hon hentry

/-- The second register. -/
def later (version : String) (discriminator : Option String) (version' : String)
    (discriminator' : Option String) : State :=
  Register.create (reopened version discriminator) ∅ (versioned version') 1
    { discriminator := discriminator' } ⟨"/"⟩

/-- The general statement for two versions without a colon: the second register
calls its engine, although the store holds the file. -/
theorem results_apart_versions :
    ¬ Indistinct "1" none "2" none ∧
      let s := later "1" none "2" none
      (s.2.store 1).entries.size = 1 ∧
        (s.1.compile s.2 ⟨"/a.js"⟩ none).world.invocations ≠ s.2.invocations := by
  have hflushed : Flushed "1" none := by decide +kernel
  have hlater : later "1" none "2" none
      = Register.create (filled (left "1" none) ⟨"/store"⟩ (kept "1" none)) ∅ (versioned "2") 1
        {} ⟨"/"⟩ := by
    unfold later
    rw [reopened_eq hflushed]
  have hdistinct : ¬ Indistinct "1" none "2" none := fun h =>
    absurd (CacheKey.tail_eq_iff.2 h) (by decide)
  obtain ⟨hticket, hon, hsize⟩ : (((later "1" none "2" none).1.ticket (later "1" none "2" none).2
        ((later "1" none "2" none).1.optionsOf ⟨"/a.js"⟩) ⟨"/a.js"⟩).toOption
          = some ⟨"\x7b\"filename\":\"/a.js\"\x7d:2", .mtime 5⟩) ∧
      ((later "1" none "2" none).2.store 1).enabled = true ∧
      ((later "1" none "2" none).2.store 1).entries.size = 1 := by
    rw [hlater]
    decide +kernel
  have hheld : ∀ key, (((reopened "1" none).store 1).entries.get? key).isSome = true →
      ∃ rec ∈ recordings (earlier "1" none) filing, rec.ticket.key = key := by
    intro key hkey
    rw [reopened_eq hflushed, store_filled _ _ _ hflushed.2.1] at hkey
    exact recorded_of_kept hflushed.1 hkey
  have hwaiting : Awaits (fun _ => True) (reopened "1" none) :=
    awaits_addStore (accounted_earlier "1" none).awaits _
  obtain ⟨-, hown⟩ := (results_apart Teardown.oneScript ∅ (versioned "1") 0 {} ⟨"/"⟩ filing
    (reopened "1" none) ∅ (versioned "2") 1 {} ⟨"/"⟩ []).2 hdistinct _ _ _
    (toOption_eq_some.1 hticket)
  refine ⟨hdistinct, hsize, fun hquiet => ?_⟩
  obtain ⟨rec, hrec, -⟩ := (hown hheld hwaiting hon rfl none).1 hquiet
  cases hrec

/-- Two registers whose engines have different versions, and whose environments
have different discriminators. The second is answered with the code of the
first one's engine, and its own is not called. -/
theorem other_version_answers :
    ("1:2", none) ≠ ("1", some "2") ∧
      let s := later "1:2" none "1" (some "2")
      s.1.engine.version = "1" ∧ s.1.env.discriminator = some "2" ∧
      (s.1.compile s.2 ⟨"/a.js"⟩ none).result.toOption = some "1:2|a" ∧
      (s.1.compile s.2 ⟨"/a.js"⟩ none).world.invocations.length = s.2.invocations.length := by
  have hflushed : Flushed "1:2" none := by decide +kernel
  unfold later
  rw [reopened_eq hflushed]
  decide +kernel

end TransformCache.Life
