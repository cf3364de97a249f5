/-
The ways through a compile, of a file or of a text in its place.

A compile asks the store with the file's key and stamp, and calls the engine if
nothing is held for them. `Way` lists how it can end, each time with all of the
outcome: the result, the register and the world. Whoever wants to know what a
compile answers or what it changes goes through this list (`compile_way`) and
does not look into `consult` again.
-/
import TransformCache.Proofs.Register.Calls
import TransformCache.Proofs.Result
import TransformCache.Proofs.World

namespace TransformCache.Register

variable {r : Register} {w : World} {path : FilePath} {inline : Option String}

-- ===================================================== the store and the file

/-- A ticket has the file's key, and the stamp that the file shows. -/
theorem of_ticket {options : EngineOptions} {t : Ticket} (h : r.ticket w options path = .ok t) :
    CacheKey.build (r.keyOptions options) path r.config.mode r.engine.version
        r.env.discriminator = .ok t.key ∧
      r.config.mode.currentStamp w.disk path = .ok t.stamp := by
  unfold ticket at h
  split at h
  next => cases h
  next key hkey =>
    split at h
    next => cases h
    next stamp hstamp =>
      obtain rfl := Except.ok.inj h
      exact ⟨hkey, hstamp⟩

/-- With the cache off the store is not asked. -/
theorem consult_of_uncached (h : r.caching w = false) (path : FilePath) :
    r.consult w path
      = match r.engine.optionsFor r.config.transform path with
        | .error reason => .error (.transform reason)
        | .ok options => .ok (.unanswered options none false) := by
  unfold consult
  rw [h]
  rfl

-- ==================================================================== ways

/-- The entry that is held for a ticket: under its key, and with its stamp. -/
def heldFor (r : Register) (w : World) (t : Ticket) : Option Cache.Entry :=
  ((w.store r.store).lookUp t.key).filter (·.holds t.stamp)

/-- The outcomes of a compile. -/
inductive Way (r : Register) (w : World) (path : FilePath) (inline : Option String) :
    Outcome String → Prop
  | unresolved {reason : TransformError}
      (hoptions : r.engine.optionsFor r.config.transform path = .error reason) :
      Way r w path inline ⟨.error (.transform reason), r, w⟩
  | refused {options : EngineOptions} {e : Error} (hcaching : r.caching w = true)
      (hoptions : r.engine.optionsFor r.config.transform path = .ok options)
      (hticket : r.ticket w options path = .error e) :
      Way r w path inline ⟨.error e, r, w⟩
  | answered {options : EngineOptions} {t : Ticket} {entry : Cache.Entry}
      (hcaching : r.caching w = true)
      (hoptions : r.engine.optionsFor r.config.transform path = .ok options)
      (hticket : r.ticket w options path = .ok t) (hheld : r.heldFor w t = some entry) :
      Way r w path inline
        ⟨.ok entry.code, { r with maps := r.maps.register path entry.map },
          w.send (r.config.trace ("from cache " ++ path.text))⟩
  | asked {options : EngineOptions} {t : Ticket} (messages : List Message)
      (hcaching : r.caching w = true)
      (hoptions : r.engine.optionsFor r.config.transform path = .ok options)
      (hticket : r.ticket w options path = .ok t) (hheld : r.heldFor w t = none) :
      Way r w path inline (r.produce (w.send messages) path inline options (some t))
  | uncached {options : EngineOptions} (messages : List Message) (hcaching : r.caching w = false)
      (hoptions : r.engine.optionsFor r.config.transform path = .ok options) :
      Way r w path inline (r.produce (w.send messages) path inline options none)

theorem compile_way (r : Register) (w : World) (path : FilePath) (inline : Option String) :
    Way r w path inline (r.compile w path inline) := by
  unfold compile consult
  cases hoptions : r.engine.optionsFor r.config.transform path with
  | error reason => exact .unresolved hoptions
  | ok options =>
      simp only
      cases hcaching : r.caching w with
      | false => exact .uncached _ hcaching hoptions
      | true =>
          simp only [if_true]
          cases hticket : r.ticket w options path with
          | error e => exact .refused hcaching hoptions hticket
          | ok t =>
              have hheld : r.heldFor w t
                  = ((w.store r.store).lookUp t.key).filter (·.holds t.stamp) := rfl
              simp only
              cases hentry : (w.store r.store).lookUp t.key with
              | none =>
                  rw [hentry] at hheld
                  exact .asked _ hcaching hoptions hticket hheld
              | some entry =>
                  rw [hentry, Option.filter_some] at hheld
                  cases hholds : entry.holds t.stamp with
                  | true =>
                      have hverdict : Verdict.of (some entry) t.stamp = .hit entry := if_pos hholds
                      rw [hholds] at hheld
                      rw [hverdict]
                      exact .answered hcaching hoptions hticket hheld
                  | false =>
                      have hverdict : Verdict.of (some entry) t.stamp = .stale :=
                        if_neg (by rw [hholds]; exact Bool.false_ne_true)
                      rw [hholds] at hheld
                      rw [hverdict]
                      simp only [if_true, World.send_send]
                      exact .asked _ hcaching hoptions hticket hheld

-- ================================================================= answers

/-- What the engine makes of a text given in place of a file, or of the file. -/
def made (r : Register) (w : World) (path : FilePath) (inline : Option String)
    (options : EngineOptions) : Except Error String :=
  match (r.engine.invoke w.disk options path inline).1 with
  | .error reason => .error (.transform reason)
  | .ok output => .ok output.code

theorem result_produce (w : World) (path : FilePath) (inline : Option String)
    (options : EngineOptions) (ticket : Option Ticket) :
    (r.produce w path inline options ticket).result = r.made w path inline options := by
  unfold produce made
  simp only
  split <;> simp_all

/-- What the engine makes of a text. -/
theorem toOption_made (text : String) (options : EngineOptions) :
    (r.made w path (some text) options).toOption = r.engine.codeOf text path options := by
  unfold made Engine.codeOf Engine.invoke Engine.sourceText
  simp only
  cases r.engine.transform text { filename := path, options } with
  | error reason => rfl
  | ok output => rfl

/-- What the engine makes of a file is the fresh code. -/
theorem toOption_made_none (r : Register) (w : World) (path : FilePath) :
    (r.made w path none (r.optionsOf path)).toOption
      = freshCode r.engine w.disk r.config.transform path := by
  unfold made freshCode Engine.codeOf Engine.invoke Engine.sourceText
  cases w.disk.readText path with
  | error reason => rfl
  | ok text =>
      show _ = Option.map _ (r.engine.transform text
        { filename := path, options := r.optionsOf path }).toOption
      simp only
      cases r.engine.transform text { filename := path, options := r.optionsOf path } with
      | error reason => rfl
      | ok output => rfl

/-- Where nothing is held, a file is answered with its fresh code; but with the
cache on it has to have a ticket. -/
theorem compile_of_empty (hadds : r.engine.AddsNothing)
    (hempty : ∀ key, (w.store r.store).lookUp key = none) :
    (r.compile w path none).result.toOption
      = if r.caching w = true ∧ (r.ticket w (r.optionsOf path) path).toOption = none then none
        else freshCode r.engine w.disk r.config.transform path := by
  have hresolve : r.engine.optionsFor r.config.transform path = .ok (r.optionsOf path) :=
    hadds ..
  have hway := compile_way r w path none
  generalize r.compile w path none = outcome at hway ⊢
  cases hway with
  | unresolved hoptions => cases hresolve.symm.trans hoptions
  | refused hcaching hoptions hticket =>
      cases hresolve.symm.trans hoptions
      rw [if_pos ⟨hcaching, by rw [hticket]; rfl⟩]
      rfl
  | @answered _ t _ _ _ _ hheld =>
      rw [heldFor, hempty] at hheld
      cases hheld
  | asked _ _ hoptions hticket =>
      cases hresolve.symm.trans hoptions
      rw [if_neg (by simp [hticket, Except.toOption]), result_produce, toOption_made_none,
        World.disk_send]
  | uncached _ hcaching hoptions =>
      cases hresolve.symm.trans hoptions
      rw [if_neg (by simp [hcaching]), result_produce, toOption_made_none,
        World.disk_send]

/-- Under a source root a file that can be read has a ticket if there is a way
from the root to it. -/
theorem ticket_of_checksum {root : FilePath} {project text : String} {options : EngineOptions}
    (hmode : r.config.mode = .checksum root project) (hread : w.disk.readText path = .ok text) :
    (r.ticket w options path).toOption = none ↔ FilePath.relative? root path = none := by
  obtain ⟨bytes, hbytes, -⟩ := bind_eq_ok.1 hread
  unfold ticket CacheKey.build CacheKey.effectiveOptions relocatableIdentity Mode.currentStamp
    fileChecksum
  simp only [hmode, hbytes]
  cases FilePath.relative? root path with
  | none => simp [Functor.map, Except.map, Except.toOption]
  | some way => simp [Functor.map, Except.map, Except.toOption]

-- ================================================================== filing

@[simp] theorem disk_file (r : Register) (w : World) (t : Ticket) (output : Output) :
    (r.file w t output).disk = w.disk := by
  unfold file
  rw [World.disk_scheduleFlush, World.disk_modifyStore]

/-- A result that is filed is entered in a store that is on, which may then wait
for a flush. -/
theorem store_file (hon : (w.store r.store).enabled = true) (t : Ticket) (output : Output) :
    ∃ flushPending, (r.file w t output).store r.store
      = { w.store r.store with
          entries := (w.store r.store).entries.insert t.key ⟨output.code, output.map, t.stamp⟩
          flushPending } := by
  unfold file
  rw [World.store_scheduleFlush_self, World.store_modifyStore_self, Cache.Store.put, if_pos hon]
  unfold Cache.Store.requestFlush
  split
  · exact ⟨_, rfl⟩
  · exact ⟨_, rfl⟩

/-- A result that is filed is held for its ticket. -/
theorem heldFor_file (hon : (w.store r.store).enabled = true) (t : Ticket) (output : Output) :
    r.heldFor (r.file w t output) t = some ⟨output.code, output.map, t.stamp⟩ := by
  obtain ⟨flushPending, hstore⟩ := store_file hon t output
  have hfound : ((r.file w t output).store r.store).lookUp t.key
      = some ⟨output.code, output.map, t.stamp⟩ := by
    rw [hstore, Cache.Store.lookUp]
    simp [hon]
  unfold heldFor
  rw [hfound]
  simp [Cache.Entry.holds]

/-- A call of the engine that comes to something leaves its result filed under
the ticket. -/
theorem session_produce {w' : World} {options : EngineOptions} {t : Ticket} {code : String}
    (h : (r.produce w' path inline options (some t)).result = .ok code)
    (hw : w'.session = w.session) :
    ∃ output : Output, output.code = code ∧
      (r.produce w' path inline options (some t)).world.session = (r.file w t output).session := by
  unfold produce at h ⊢
  simp only at h ⊢
  cases hmade : (r.engine.invoke w'.disk options path inline).1 with
  | error reason => rw [hmade] at h; cases h
  | ok output =>
      rw [hmade] at h
      cases h
      exact ⟨output, rfl, session_file (v := w'.record _) hw t output⟩

@[simp] theorem disk_produce (w : World) (path : FilePath) (inline : Option String)
    (options : EngineOptions) (ticket : Option Ticket) :
    (r.produce w path inline options ticket).world.disk = w.disk := by
  unfold produce
  simp only
  split
  · rfl
  · cases ticket with
    | none => rfl
    | some t => exact disk_file ..

/-- A compile leaves the disk alone; what it files is written by a flush. -/
@[simp] theorem disk_compile (r : Register) (w : World) (path : FilePath)
    (inline : Option String) : (r.compile w path inline).world.disk = w.disk := by
  have hway := compile_way r w path inline
  generalize r.compile w path inline = outcome at hway ⊢
  cases hway with
  | unresolved => rfl
  | refused => rfl
  | answered => rfl
  | asked => exact disk_produce ..
  | uncached => exact disk_produce ..

end TransformCache.Register
