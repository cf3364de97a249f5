/-
When a stored entry may stand in for a call of the engine.

A `Question` is what a register is asked in one compile: a file, the disk it
is on, and the options and the mode in effect. The key and the stamp that the
register works with are read off the question, and so is the answer, the code
that the engine makes of the file. An entry is `Genuine` if it holds the key,
the stamp and the answer of one question, asked some time.

The point is that a key and a stamp together settle the answer (`answer_eq`).
By times, the key gives away the file and all of its options, and the stamp
the contents. By checksums, the stamp gives away the text, and the key all of
the options but the name of the file, which then must not matter to the
engine. A stamp of one mode is never one of the other.
-/
import TransformCache.Proofs.CacheKey
import TransformCache.Proofs.Cache.Vouched
import TransformCache.Proofs.Register.Calls
import TransformCache.Proofs.Utf8

namespace TransformCache

/-- An engine to which the name of the file does not matter. -/
def Engine.Indifferent (e : Engine) : Prop :=
  ∀ text path path' options options',
    Keyed.erase options EngineOptions.filenameKey
        = Keyed.erase options' EngineOptions.filenameKey →
      e.codeOf text path options = e.codeOf text path' options'

namespace Transparency

/-- What the lives of registers over one store have in common. -/
structure Setting where
  storePath : FilePath
  engine : Engine
  discriminator : Option String
  /-- The files that are compiled. -/
  source : FilePath → Prop

-- ================================================================ questions

/-- A file on a disk, under options and a mode. -/
structure Question where
  disk : FileSystem
  path : FilePath
  base : EngineOptions
  mode : Mode

namespace Question

/-- The options that the key is made of. -/
def keyOptions (q : Question) : EngineOptions :=
  if q.mode.isRelocatable then q.base else q.base.withFilename q.path.text

def key (q : Question) (S : Setting) : Except Error String :=
  CacheKey.build q.keyOptions q.path q.mode S.engine.version S.discriminator

def stamp (q : Question) : Except Error Cache.Stamp := q.mode.currentStamp q.disk q.path

/-- The code that the engine makes of the file. -/
def answer (q : Question) (S : Setting) : Option String :=
  freshCode S.engine q.disk q.base q.path

/-- A question about a source file on a disk that there was. -/
structure Proper (S : Setting) (disks : FileSystem → Prop) (q : Question) : Prop where
  disk : disks q.disk
  source : S.source q.path
  plain : q.base.Plain

end Question

/-- An entry that holds the answer to a question. -/
def Genuine (S : Setting) (disks : FileSystem → Prop) (key : String) (e : Cache.Entry) : Prop :=
  ∃ q : Question, q.Proper S disks ∧ q.key S = .ok key ∧ q.stamp = .ok e.stamp ∧
    q.answer S = some e.code

/-- Maps are no part of an answer. -/
theorem genuine_mapless (S : Setting) (disks : FileSystem → Prop) :
    Cache.Mapless (Genuine S disks) := by
  rintro key e e' hcode hstamp ⟨q, hq, hkey, hshown, hanswer⟩
  exact ⟨q, hq, hkey, hstamp ▸ hshown, hcode ▸ hanswer⟩

-- ================================================================== sources

/-- What is taken for granted of the source files on the disks that there
were. -/
structure Sources (S : Setting) (disks : FileSystem → Prop) : Prop where
  /-- Their contents are text. -/
  text : ∀ d, disks d → ∀ p, S.source p → ∀ bytes, d.read p = .ok bytes →
    (Utf8.decode? bytes).isSome = true
  /-- A file that shows the same time has the same contents. -/
  time : ∀ d d', disks d → disks d' → ∀ p, S.source p → ∀ ms,
    fileTime d p = .ok ms → fileTime d' p = .ok ms →
      (d.read p).toOption = (d'.read p).toOption
  /-- Texts with the same checksum are the same. -/
  checksum : ∀ d d', disks d → disks d' → ∀ p p', S.source p → S.source p' →
    ∀ a b, d.readText p = .ok a → d'.readText p' = .ok b →
      checksumText a = checksumText b → a = b

variable {S : Setting} {disks : FileSystem → Prop} {d d' : FileSystem} {p : FilePath}

theorem readText_toOption (d : FileSystem) (p : FilePath) :
    (d.readText p).toOption = (d.read p).toOption.bind Utf8.decode? := by
  unfold FileSystem.readText
  cases d.read p with
  | error reason => rfl
  | ok bytes =>
      simp only [bind, Except.bind]
      cases hdecode : Utf8.decode? bytes with
      | none => exact hdecode.symm
      | some text => exact hdecode.symm

/-- The checksum that a source shows is the one of its text. -/
theorem Sources.readText_of_checksum (h : Sources S disks) (hd : disks d) (hp : S.source p)
    {digest : String} (hsum : fileChecksum d p = .ok digest) :
    ∃ text, d.readText p = .ok text ∧ checksumText text = digest := by
  unfold fileChecksum at hsum
  cases hread : d.read p with
  | error reason => rw [hread] at hsum; cases hsum
  | ok bytes =>
      rw [hread] at hsum
      obtain ⟨text, htext⟩ := Option.isSome_iff_exists.1 (h.text d hd p hp bytes hread)
      refine ⟨text, ?_, ?_⟩
      · unfold FileSystem.readText
        simp only [hread, bind, Except.bind, htext]
      · rw [← Utf8.decodeLossy_of_decode? htext]
        exact Except.ok.inj hsum

/-- What shows no time has no contents. -/
theorem read_of_fileTime_error {e : Error} (h : fileTime d p = .error e) :
    (d.read p).toOption = none := by
  unfold fileTime FileSystem.modified at h
  unfold FileSystem.read
  cases hl : d.lookUp p with
  | error reason => rfl
  | ok found =>
      rw [hl] at h
      obtain ⟨place, _ | _⟩ := found
      · cases h
      · cases h

-- ================================================================== stamps

/-- By times, the stamp is the time of the last change. -/
theorem currentStamp_mtime {stamp : Cache.Stamp}
    (h : Mode.currentStamp .mtime d p = .ok stamp) :
    ∃ ms, stamp = .mtime ms ∧ fileTime d p = .ok ms := by
  obtain ⟨ms, hms, rfl⟩ := map_eq_ok.1 h
  exact ⟨ms, rfl, hms⟩

/-- By checksums, the stamp is the checksum of the contents. -/
theorem currentStamp_checksum {root : FilePath} {project : String} {stamp : Cache.Stamp}
    (h : Mode.currentStamp (.checksum root project) d p = .ok stamp) :
    ∃ digest, stamp = .checksum digest ∧ fileChecksum d p = .ok digest := by
  obtain ⟨digest, hsum, rfl⟩ := map_eq_ok.1 h
  exact ⟨digest, rfl, hsum⟩

-- ============================================================ one answer

namespace Question

variable {q q' : Question} {key : String} {stamp : Cache.Stamp}

theorem answer_of_readText {text : String} (h : q.disk.readText q.path = .ok text) :
    q.answer S = S.engine.codeOf text q.path (q.base.withFilename q.path.text) := by
  unfold answer freshCode
  rw [h]
  rfl

/-- What shows no stamp has no answer. -/
theorem answer_of_stamp_error {e : Error} (h : q.stamp = .error e) : q.answer S = none := by
  have hread : (q.disk.read q.path).toOption = none := by
    obtain ⟨disk, path, base, mode⟩ := q
    cases mode with
    | mtime =>
        cases htime : fileTime disk path with
        | error e => exact read_of_fileTime_error htime
        | ok ms =>
            unfold stamp Mode.currentStamp at h
            rw [htime] at h
            cases h
    | checksum root project =>
        cases hread : disk.read path with
        | error reason => rfl
        | ok bytes =>
            unfold stamp Mode.currentStamp fileChecksum at h
            rw [hread] at h
            cases h
  unfold answer freshCode
  rw [readText_toOption, hread]
  rfl

/-- Only a file away from the source root has no key. -/
theorem key_error {e : Error} (h : q.key S = .error e) :
    ∃ root project, q.mode = .checksum root project ∧
      FilePath.relative? root q.path = none ∧ e = .config (.unrelated q.path root) := by
  obtain ⟨disk, path, base, mode⟩ := q
  unfold key CacheKey.build CacheKey.effectiveOptions at h
  cases mode with
  | mtime => cases h
  | checksum root project =>
      refine ⟨root, project, rfl, ?_⟩
      unfold relocatableIdentity at h
      simp only at h
      cases hway : FilePath.relative? root path with
      | some way => rw [hway] at h; cases h
      | none =>
          rw [hway] at h
          cases h
          exact ⟨rfl, rfl⟩

/-- By times, a key and a stamp settle the file, its options and its contents. -/
theorem answer_eq_of_mtime (hs : Sources S disks) (hq : q.Proper S disks)
    (hq' : q'.Proper S disks) (hmode : q.mode = .mtime) (hmode' : q'.mode = .mtime)
    (hkey : q.key S = .ok key) (hkey' : q'.key S = .ok key)
    (hstamp : q.stamp = .ok stamp) (hstamp' : q'.stamp = .ok stamp) :
    q.answer S = q'.answer S := by
  obtain ⟨disk, path, base, mode⟩ := q
  obtain ⟨disk', path', base', mode'⟩ := q'
  obtain rfl : mode = .mtime := hmode
  obtain rfl : mode' = .mtime := hmode'
  obtain ⟨rfl, hoptions⟩ : path = path' ∧
      base.withFilename path.text = base'.withFilename path'.text :=
    CacheKey.request_of_mtime hq.plain hq'.plain hkey hkey'
  obtain ⟨ms, rfl, hms⟩ := currentStamp_mtime hstamp
  obtain ⟨ms', heq, hms'⟩ := currentStamp_mtime hstamp'
  cases heq
  have hcontents := hs.time disk disk' hq.disk hq'.disk path hq.source ms hms hms'
  show freshCode S.engine disk base path = freshCode S.engine disk' base' path
  unfold freshCode
  rw [readText_toOption, readText_toOption, hcontents, hoptions]

/-- By checksums, a key and a stamp settle the text, and all of the options but
the name of the file. -/
theorem answer_eq_of_checksum (hs : Sources S disks) (hengine : S.engine.Indifferent)
    (hq : q.Proper S disks) (hq' : q'.Proper S disks) {root root' : FilePath}
    {project project' : String} (hmode : q.mode = .checksum root project)
    (hmode' : q'.mode = .checksum root' project')
    (hkey : q.key S = .ok key) (hkey' : q'.key S = .ok key)
    (hstamp : q.stamp = .ok stamp) (hstamp' : q'.stamp = .ok stamp) :
    q.answer S = q'.answer S := by
  obtain ⟨disk, path, base, mode⟩ := q
  obtain ⟨disk', path', base', mode'⟩ := q'
  obtain rfl : mode = .checksum root project := hmode
  obtain rfl : mode' = .checksum root' project' := hmode'
  obtain ⟨digest, rfl, hsum⟩ := currentStamp_checksum hstamp
  obtain ⟨digest', heq, hsum'⟩ := currentStamp_checksum hstamp'
  cases heq
  obtain ⟨text, hread, hdigest⟩ := hs.readText_of_checksum hq.disk hq.source hsum
  obtain ⟨text', hread', hdigest'⟩ := hs.readText_of_checksum hq'.disk hq'.source hsum'
  have hsame : text = text' :=
    hs.checksum disk disk' hq.disk hq'.disk path path' hq.source hq'.source text text' hread
      hread' (hdigest.trans hdigest'.symm)
  subst hsame
  rw [answer_of_readText hread, answer_of_readText hread']
  exact hengine text path path' _ _
    (CacheKey.options_of_checksum hq.plain hq'.plain hkey hkey')

/-- A key and a stamp settle the answer. -/
theorem answer_eq (hs : Sources S disks)
    (hengine : q.mode.isRelocatable = true → S.engine.Indifferent)
    (hq : q.Proper S disks) (hq' : q'.Proper S disks)
    (hkey : q.key S = .ok key) (hkey' : q'.key S = .ok key)
    (hstamp : q.stamp = .ok stamp) (hstamp' : q'.stamp = .ok stamp) :
    q.answer S = q'.answer S := by
  have hshown : q.mode.currentStamp q.disk q.path = .ok stamp := hstamp
  have hshown' : q'.mode.currentStamp q'.disk q'.path = .ok stamp := hstamp'
  cases hmode : q.mode with
  | mtime =>
      rw [hmode] at hshown
      obtain ⟨ms, rfl, -⟩ := currentStamp_mtime hshown
      cases hmode' : q'.mode with
      | mtime => exact answer_eq_of_mtime hs hq hq' hmode hmode' hkey hkey' hstamp hstamp'
      | checksum root' project' =>
          -- the stamps are of two kinds
          rw [hmode'] at hshown'
          obtain ⟨digest, heq, -⟩ := currentStamp_checksum hshown'
          cases heq
  | checksum root project =>
      rw [hmode] at hshown
      obtain ⟨digest, rfl, -⟩ := currentStamp_checksum hshown
      cases hmode' : q'.mode with
      | mtime =>
          rw [hmode'] at hshown'
          obtain ⟨ms, heq, -⟩ := currentStamp_mtime hshown'
          cases heq
      | checksum root' project' =>
          have hrelocatable : q.mode.isRelocatable = true := by rw [hmode]; rfl
          exact answer_eq_of_checksum hs (hengine hrelocatable) hq hq' hmode hmode' hkey hkey'
            hstamp hstamp'

end Question

end Transparency

end TransformCache
