/-
Which changes of a file a checksum notices.

The checksum of a file is taken of the text that it reads as. Bytes that are no
text are replaced, not refused, and that is where contents are lost sight of:
stamps are the same just where the contents read as one text
(`stamps_of_contents`). Contents that do so and differ are not both text, and
differ in nothing but the stretches that are replaced.

So a change from one text to another is always noticed, and so is a change
around what is no text; a change within it is not (`stamps_of_replaced`).
-/
import TransformCache.Invalidation
import TransformCache.Proofs.Utf8.Replacement

namespace TransformCache

/-- What the store has is judged by its stamp alone. -/
theorem Verdict.of_some (entry : Cache.Entry) (current : Cache.Stamp) :
    Verdict.of (some entry) current = if entry.stamp = current then .hit entry else .stale := by
  unfold Verdict.of Cache.Entry.holds
  simp only [decide_eq_true_eq]

namespace Mode

variable {m m' : Mode} {fs fs' : FileSystem} {p p' : FilePath} {contents contents' : Bytes}

/-- The stamp of a file whose contents can be read. -/
theorem currentStamp_of_read (hm : m.isRelocatable = true) (hread : fs.read p = .ok contents) :
    m.currentStamp fs p = .ok (.checksum (checksumText (Utf8.decodeLossy contents))) := by
  cases m with
  | mtime => cases hm
  | checksum root project =>
      unfold currentStamp fileChecksum
      rw [hread]
      rfl

/-- By checksums, and without collisions between the texts that occur, two
contents show one stamp just where they read as one text. An entry that was
stored for the one is then a hit for the other, and stale if not. Different
contents show one stamp only if one of them at least is no text, and they
differ in nothing but what is replaced. -/
theorem stamps_of_contents (occurs : String → Prop)
    (hfree : ∀ a b, occurs a → occurs b → checksumText a = checksumText b → a = b)
    (hm : m.isRelocatable = true) (hm' : m'.isRelocatable = true)
    (hread : fs.read p = .ok contents) (hread' : fs'.read p' = .ok contents')
    (htext : occurs (Utf8.decodeLossy contents)) (htext' : occurs (Utf8.decodeLossy contents')) :
    ∃ stamp stamp', m.currentStamp fs p = .ok stamp ∧ m'.currentStamp fs' p' = .ok stamp' ∧
      (stamp = stamp' ↔ Utf8.decodeLossy contents = Utf8.decodeLossy contents') ∧
      (∀ entry : Cache.Entry, entry.stamp = stamp →
        Verdict.of (some entry) stamp' = if stamp = stamp' then .hit entry else .stale) ∧
      (contents ≠ contents' → stamp = stamp' →
        (Utf8.decode? contents = none ∨ Utf8.decode? contents' = none) ∧
          Utf8.DifferInReplaced contents contents') := by
  refine ⟨_, _, currentStamp_of_read hm hread, currentStamp_of_read hm' hread', ?_⟩
  have hiff : (Cache.Stamp.checksum (checksumText (Utf8.decodeLossy contents))
        = .checksum (checksumText (Utf8.decodeLossy contents')))
      ↔ Utf8.decodeLossy contents = Utf8.decodeLossy contents' := by
    constructor
    · exact fun h => hfree _ _ htext htext' (Cache.Stamp.checksum.inj h)
    · exact fun h => by rw [h]
  refine ⟨hiff, ?_, ?_⟩
  · intro entry hentry
    rw [Verdict.of_some, hentry]
  · intro hne hstamps
    have hsame := hiff.1 hstamps
    exact ⟨Utf8.decode?_eq_none_of_ne hne hsame, Utf8.differInReplaced hsame⟩

/-- A disk with one file. -/
def oneFile (contents : Bytes) : FileSystem := FileSystem.empty.put ⟨"/a.js"⟩ contents 0

/-- A text with one letter that is not written in UTF-8. -/
def latin (letter : UInt8) : Bytes := Utf8.encode "let s = '" ++ letter :: Utf8.encode "';"

/-- A file that is no text does not read as the text without the accent, so
what was stored for the one is stale for the other. -/
theorem stamps_of_contents_latin :
    ∃ stamp stamp',
      currentStamp (.checksum ⟨"/"⟩ "app") (oneFile (latin 0xE9)) ⟨"/a.js"⟩ = .ok stamp ∧
      currentStamp (.checksum ⟨"/moved"⟩ "app") (oneFile (Utf8.encode "let s = 'e';")) ⟨"a.js"⟩
        = .ok stamp' ∧
      ∀ entry : Cache.Entry, entry.stamp = stamp → Verdict.of (some entry) stamp' = .stale := by
  have hother : checksumText "let s = '\uFFFD';" ≠ checksumText "let s = 'e';" := by
    decide +kernel
  have hfree : ∀ a b, a ∈ ["let s = '\uFFFD';", "let s = 'e';"] →
      b ∈ ["let s = '\uFFFD';", "let s = 'e';"] → checksumText a = checksumText b → a = b := by
    intro a b ha hb h
    simp only [List.mem_cons, List.not_mem_nil, or_false] at ha hb
    rcases ha with rfl | rfl <;> rcases hb with rfl | rfl
    · rfl
    · exact absurd h hother
    · exact absurd h.symm hother
    · rfl
  have hread : (oneFile (latin 0xE9)).read ⟨"/a.js"⟩ = .ok (latin 0xE9) :=
    toOption_eq_some.1 (by decide +kernel)
  have hread' : (oneFile (Utf8.encode "let s = 'e';")).read ⟨"a.js"⟩
      = .ok (Utf8.encode "let s = 'e';") := toOption_eq_some.1 (by decide +kernel)
  have hm : (Mode.checksum ⟨"/"⟩ "app").isRelocatable = true := rfl
  have hm' : (Mode.checksum ⟨"/moved"⟩ "app").isRelocatable = true := rfl
  obtain ⟨stamp, stamp', hstamp, hstamp', hsame, hverdict, -⟩ :=
    stamps_of_contents (· ∈ ["let s = '\uFFFD';", "let s = 'e';"]) hfree hm hm' hread hread'
      (by decide +kernel) (by decide +kernel)
  refine ⟨stamp, stamp', hstamp, hstamp', fun entry hentry => ?_⟩
  rw [hverdict entry hentry, if_neg]
  rw [hsame]
  decide +kernel

/-- Letters that are replaced are not told apart: the contents differ, and no
two texts occur, but what was stored for the one is a hit for the other. -/
theorem stamps_of_replaced :
    let mode := Mode.checksum ⟨"/"⟩ "app"
    latin 0xE8 ≠ latin 0xE9 ∧
      Utf8.decodeLossy (latin 0xE8) = Utf8.decodeLossy (latin 0xE9) ∧
      (oneFile (latin 0xE8)).read ⟨"/a.js"⟩ = .ok (latin 0xE8) ∧
      (oneFile (latin 0xE9)).read ⟨"/a.js"⟩ = .ok (latin 0xE9) ∧
      ∃ stamp, mode.currentStamp (oneFile (latin 0xE8)) ⟨"/a.js"⟩ = .ok stamp ∧
        mode.currentStamp (oneFile (latin 0xE9)) ⟨"/a.js"⟩ = .ok stamp ∧
        ∀ entry : Cache.Entry, entry.stamp = stamp →
          Verdict.of (some entry) stamp = .hit entry := by
  intro mode
  have hsame : Utf8.decodeLossy (latin 0xE8) = Utf8.decodeLossy (latin 0xE9) := by
    decide +kernel
  have hread : (oneFile (latin 0xE8)).read ⟨"/a.js"⟩ = .ok (latin 0xE8) :=
    toOption_eq_some.1 (by decide +kernel)
  have hread' : (oneFile (latin 0xE9)).read ⟨"/a.js"⟩ = .ok (latin 0xE9) :=
    toOption_eq_some.1 (by decide +kernel)
  refine ⟨by decide +kernel, hsame, hread, hread', _, currentStamp_of_read rfl hread, ?_, ?_⟩
  · rw [hsame]
    exact currentStamp_of_read rfl hread'
  · intro entry hentry
    rw [Verdict.of_some, if_pos hentry]

end Mode

end TransformCache
