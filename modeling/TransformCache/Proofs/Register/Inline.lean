/-
Text given in place of a file.

A caller may hand a register the text that the engine is to work on, in place
of what is on the disk. The engine is given that text. The store is not: the
key and the stamp are those of the file, and say nothing of the text. So the
register answers with what it holds for the file, whichever text that was made
of, and it fails where the file has no key or no stamp, although the engine
would not have needed the file.

`compile_text_eq_iff` says exactly when the answer is nevertheless the one that
the register gives with its cache off. `compile_of_compile` says how far it can
be from that: once one text was compiled, its code is the answer to every other
text, and to the file itself.
-/
import TransformCache.Proofs.Register.Compile

namespace TransformCache.Register

variable {r : Register} {w : World} {path : FilePath}

-- ======================================================= one text for all

/-- After a compile that comes to something its code is held for the file, which
shows the ticket that it showed before. -/
theorem held_of_compile (hcaching : r.caching w = true) {inline : Option String} {code : String}
    (h : (r.compile w path inline).result = .ok code) :
    let after := (r.compile w path inline).world
    after.disk = w.disk ∧ r.caching after = true ∧
    ∃ options t entry, r.engine.optionsFor r.config.transform path = .ok options ∧
      r.ticket w options path = .ok t ∧ r.heldFor after t = some entry ∧ entry.code = code := by
  have hon : (w.store r.store).enabled = true := (Bool.and_eq_true_iff.1 hcaching).2
  have hway := compile_way r w path inline
  generalize r.compile w path inline = outcome at h hway ⊢
  cases hway with
  | unresolved => cases h
  | refused => cases h
  | answered _ hoptions hticket hheld =>
      cases h
      exact ⟨rfl, hcaching, _, _, _, hoptions, hticket, hheld, rfl⟩
  | uncached _ hoff => rw [hcaching] at hoff; cases hoff
  | @asked options t messages _ hoptions hticket _ =>
      obtain ⟨output, hcode, hsession⟩ := session_produce (w := w) h rfl
      generalize (r.produce (w.send messages) path inline options (some t)).world = after
        at hsession ⊢
      -- the disk, and what the store holds, are a matter of the session alone
      have hdisk : after.disk = (r.file w t output).disk :=
        congrArg (fun s : Cache.Session => s.host.disk) hsession
      have hstore : after.store r.store = (r.file w t output).store r.store :=
        congrArg (fun s : Cache.Session => s.host.stores r.store) hsession
      refine ⟨hdisk.trans (disk_file ..), ?_, options, t, ⟨output.code, output.map, t.stamp⟩,
        hoptions, hticket, ?_, hcode⟩
      · obtain ⟨flushPending, hentered⟩ := store_file hon t output
        rw [← hcaching, caching, caching, hstore, hentered]
      · rw [← heldFor_file hon t output, heldFor, heldFor, hstore]

/-- Once a file, or a text in its place, was compiled, its code is the answer to
the file and to every text in its place. -/
theorem compile_of_compile (hcaching : r.caching w = true) {first : Option String}
    {code : String} (h : (r.compile w path first).result = .ok code) (second : Option String) :
    let done := r.compile w path first
    (done.register.compile done.world path second).result = .ok code := by
  intro done
  obtain ⟨hdisk, hstill, options, t, entry, hoptions, hticket, hheld, hcode⟩ :=
    held_of_compile hcaching h
  obtain ⟨maps, hregister⟩ := register_compile r w path first
  -- the maps of a register play no part in what it answers
  have hticket' : ({ r with maps } : Register).ticket done.world options path = .ok t := by
    rw [← hticket]
    unfold ticket
    rw [hdisk]
    rfl
  rw [show done.register = _ from hregister]
  have hway := compile_way { r with maps } done.world path second
  generalize Register.compile { r with maps } done.world path second = outcome at hway ⊢
  cases hway with
  | unresolved hother => cases hoptions.symm.trans hother
  | refused _ hother hrefused =>
      cases hoptions.symm.trans hother
      cases hticket'.symm.trans hrefused
  | answered _ hother hticket'' hheld'' =>
      cases hoptions.symm.trans hother
      cases hticket'.symm.trans hticket''
      cases hheld.symm.trans hheld''
      rw [hcode]
  | asked _ _ hother hticket'' hnone =>
      cases hoptions.symm.trans hother
      cases hticket'.symm.trans hticket''
      cases hheld.symm.trans hnone
  | uncached _ hoff => cases hstill.symm.trans hoff

-- ============================================================ main statement

/-- What a register has for a file is what its engine makes of a text: where an
entry is held, the code in it, and where the file has no key or no stamp,
nothing. -/
def Suits (r : Register) (w : World) (path : FilePath) (text : String) : Prop :=
  match r.engine.optionsFor r.config.transform path with
  | .error _ => True
  | .ok options =>
    match r.ticket w options path with
    | .error _ => r.engine.codeOf text path options = none
    | .ok t => ∀ entry ∈ r.heldFor w t, r.engine.codeOf text path options = some entry.code

/-- What a register answers with its cache off: what the engine makes of the
text. -/
theorem compile_text_withoutCache (r : Register) (w : World) (path : FilePath) (text : String) :
    (r.withoutCache.compile w path (some text)).result.toOption
      = (r.engine.optionsFor r.config.transform path).toOption.bind
          (r.engine.codeOf text path) := by
  have hway := compile_way r.withoutCache w path (some text)
  have hoff : r.withoutCache.caching w = false := by simp [caching, withoutCache]
  generalize r.withoutCache.compile w path (some text) = outcome at hway ⊢
  cases hway with
  | unresolved hoptions =>
      rw [show r.engine.optionsFor r.config.transform path = _ from hoptions]
      rfl
  | refused hon => cases hoff.symm.trans hon
  | answered hon => cases hoff.symm.trans hon
  | asked _ hon => cases hoff.symm.trans hon
  | uncached _ _ hoptions =>
      rw [result_produce, toOption_made,
        show r.engine.optionsFor r.config.transform path = _ from hoptions]
      rfl

/-- With its cache on a register answers a text given in place of a file as it
does with its cache off exactly if what it has for the file suits the text. -/
theorem compile_text_eq_iff (hcaching : r.caching w = true) (path : FilePath) (text : String) :
    (r.compile w path (some text)).result.toOption
        = (r.withoutCache.compile w path (some text)).result.toOption ↔
      r.Suits w path text := by
  rw [compile_text_withoutCache]
  have hway := compile_way r w path (some text)
  generalize r.compile w path (some text) = outcome at hway ⊢
  unfold Suits
  cases hway with
  | unresolved hoptions =>
      rw [hoptions]
      exact ⟨fun _ => trivial, fun _ => rfl⟩
  | refused _ hoptions hticket =>
      rw [hoptions]
      simp only [hticket]
      exact eq_comm
  | @answered options t entry _ hoptions hticket hheld =>
      rw [hoptions]
      simp only [hticket, hheld]
      constructor
      · rintro hcode _ ⟨⟩
        exact hcode.symm
      · intro hsuits
        exact (hsuits entry rfl).symm
  | asked _ _ hoptions hticket hheld =>
      rw [hoptions, result_produce, toOption_made]
      simp only [hticket, hheld]
      constructor
      · intro _ entry hentry
        cases hentry
      · intro _
        rfl
  | uncached _ hoff => cases hcaching.symm.trans hoff

-- ---------------------------------------------------- two texts for one file

/-- An engine that hands over the text. -/
def copyingEngine : Engine where
  version := "1"
  transform text _ := .ok ⟨text, none⟩

/-- A register over one file and an empty store. -/
def begun : Register × World :=
  let disk := FileSystem.empty.set ["a.js"] (.file (Utf8.encode "a") 5000)
  let (store, w) := (World.ofDisk disk).addStore (.opened ⟨"/store"⟩)
  create w ∅ copyingEngine store {} ⟨"/"⟩

/-- What is left of it after a first text was compiled in place of the file. -/
def textGiven : Outcome String := begun.1.compile begun.2 ⟨"/a.js"⟩ (some "first")

/-- The general statement after a first text, for the same text again. -/
theorem compile_text_eq_iff_again :
    textGiven.register.caching textGiven.world = true ∧
      textGiven.register.Suits textGiven.world ⟨"/a.js"⟩ "first" := by
  have hcaching : textGiven.register.caching textGiven.world = true := by decide +kernel
  exact ⟨hcaching, (compile_text_eq_iff hcaching ⟨"/a.js"⟩ "first").1 (by decide +kernel)⟩

/-- With the cache on, a second text in place of the file is answered with the
first one's code, and a text in place of a file that is not there is refused.
With the cache off both are what the engine makes of them. -/
theorem second_text_unheard :
    let r := textGiven.register
    let w := textGiven.world
    r.caching w = true ∧
      (r.compile w ⟨"/a.js"⟩ (some "second")).result.toOption = some "first" ∧
      (r.withoutCache.compile w ⟨"/a.js"⟩ (some "second")).result.toOption = some "second" ∧
      (r.compile w ⟨"/b.js"⟩ (some "third")).result.toOption = none ∧
      (r.withoutCache.compile w ⟨"/b.js"⟩ (some "third")).result.toOption = some "third" := by
  decide +kernel

end TransformCache.Register
