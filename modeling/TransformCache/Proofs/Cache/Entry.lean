/-
Which objects are entries.

Of the members of an object, in the order of its text, an entry takes the only
one named `code`, which has to be a text, and the only one named `map`, which
may be missing or `null`. The stamp is the first member that is named like one,
and what comes after it is passed over, whatever it is: so the members that an
entry is made of can be told without reading them one after the other
(`Entry.OfMembers`, `ofMembers?_eq_some_iff`).

The map is what is meant by the value that was given (`GivesMap`). That is the
value itself, sorted, unless an object in it stands for a text; then an entry is
refused if there is no such text.

Reading judges the members as they come, and the code and the map before the
stamp. It is `Guided` by the reader of values all the same, so that a text is
read as an entry exactly if it is an object whose members make one.
-/
import TransformCache.Proofs.Cache.StoreFile
import TransformCache.Proofs.Json.Fields

namespace TransformCache.Cache

open Json (Picks Guided Once takeAll orNull settled?)

-- =============================================================== the members

/-- True for the members that can be the stamp. -/
def isStamp (m : String × Json) : Bool := m.1 = "mtime" || m.1 = "checksum"

/-- The members make some entry. -/
structure Entry.Acceptable (ms : List (String × Json)) : Prop where
  code : ∃ code, ms.filter (·.1 = "code") = [("code", .string code)]
  map : (ms.filter (·.1 = "map")).length ≤ 1
  settles : ∀ x, ("map", x) ∈ ms → ∃ map, Json.settle x = .ok map
  /-- A time is written as a whole number; `1.0` and `-0` are read as doubles. -/
  stamp : (∃ t, ms.find? isStamp = some ("mtime", .int t) ∧ -timeBound ≤ t ∧ t < timeBound) ∨
    ∃ digest, ms.find? isStamp = some ("checksum", .string digest)

/-- The map that members give: none if it is missing or `null`, otherwise what is
meant by the only one. -/
inductive GivesMap (ms : List (String × Json)) : Option Json → Prop where
  | missing (h : ms.filter (·.1 = "map") = []) : GivesMap ms none
  | null (h : ms.filter (·.1 = "map") = [("map", .null)]) : GivesMap ms none
  | given {x map : Json} (h : ms.filter (·.1 = "map") = [("map", x)]) (hx : x ≠ .null)
      (hmap : Json.settle x = .ok map) : GivesMap ms (some map)

/-- The members make this entry. -/
structure Entry.OfMembers (ms : List (String × Json)) (e : Entry) : Prop where
  code : ms.filter (·.1 = "code") = [("code", .string e.code)]
  map : GivesMap ms e.map
  stamp : ms.find? isStamp = some e.stamp.member
  fits : e.stamp.Fits

-- ============================================================ reading members

/-- How a member is taken, in whatever way its value was read. -/
def EntryReading.take (seen : EntryReading) (key : String) (x : Json) : Option EntryReading :=
  if key = "code" then
    (Json.once Json.text? seen.code x).map fun code => { seen with code }
  else if key = "map" then
    (Json.once (orNull settled?) seen.map x).map fun map => { seen with map }
  else if isStamp (key, x) ∧ seen.stamp.isNone then some { seen with stamp := some (key, x) }
  else some seen

/-- Members are judged as they are read. -/
theorem guided_entryMembers (depth : Nat) :
    Guided (entryMembers depth) (Json.tree depth) EntryReading.take where
  refuse seen key x hrefuse := by
    unfold entryMembers at hrefuse
    unfold EntryReading.take
    by_cases hcode : key = "code"
    · subst hcode
      have hseen : seen.code.isSome = true := by simpa using hrefuse
      rw [if_pos rfl, Json.once_of_isSome hseen]
      rfl
    · by_cases hmap : key = "map"
      · subst hmap
        have hseen : seen.map.isSome = true := by simpa using hrefuse
        rw [if_neg hcode, if_pos rfl, Json.once_of_isSome hseen]
        rfl
      · simp [hcode, hmap] at hrefuse
  member seen key hrefuse := by
    have htree := Json.picks_self (Json.tree depth)
    unfold entryMembers at hrefuse ⊢
    unfold EntryReading.take
    by_cases hcode : key = "code"
    · subst hcode
      have hseen : seen.code = none := by simpa using hrefuse
      simp only [if_true]
      exact (Json.picks_stringOf "a string" depth).once hseen fun code => { seen with code }
    · by_cases hmap : key = "map"
      · subst hmap
        have hseen : seen.map = none := by simpa using hrefuse
        simp only [if_neg hcode, if_true]
        exact (Json.picks_optional (Json.picks_value depth)).once hseen fun map =>
          { seen with map }
      · simp only [if_neg hcode, if_neg hmap]
        have hstamp := htree.mapValue fun x =>
          if (key = "mtime" ∨ key = "checksum") ∧ seen.stamp.isNone then
            { seen with stamp := some (key, x) }
          else seen
        simpa [isStamp, apply_ite some] using hstamp

/-- The fields are taken each for itself, and the first stamp is kept. -/
theorem takeAll_take_iff (ms : List (String × Json)) :
    ∀ seen left, takeAll EntryReading.take seen ms = some left ↔
      Once Json.text? "code" ms seen.code left.code ∧
      Once (orNull settled?) "map" ms seen.map left.map ∧
      left.stamp = (seen.stamp <|> ms.find? isStamp) := by
  induction ms with
  | nil =>
      rintro ⟨code, map, stamp⟩ ⟨code', map', stamp'⟩
      simp [eq_comm]
  | cons m ms ih =>
      intro seen left
      obtain ⟨key, x⟩ := m
      rw [Json.takeAll_cons, EntryReading.take]
      by_cases hcode : key = "code"
      · subst hcode
        have hmap : ("code" : String) ≠ "map" := by decide
        have hfind : (("code", x) :: ms).find? isStamp = ms.find? isStamp := rfl
        simp only [if_true, Option.bind_map, Option.bind_eq_some_iff, Function.comp_def, ih,
          Json.once_cons_self, Json.once_cons_ne hmap, hfind]
        constructor
        · rintro ⟨code, htake, hcode, hrest⟩
          exact ⟨⟨code, htake, hcode⟩, hrest⟩
        · rintro ⟨⟨code, htake, hcode⟩, hrest⟩
          exact ⟨code, htake, hcode, hrest⟩
      · by_cases hmap : key = "map"
        · subst hmap
          have hfind : (("map", x) :: ms).find? isStamp = ms.find? isStamp := rfl
          simp only [if_neg hcode, if_true, Option.bind_map, Option.bind_eq_some_iff,
            Function.comp_def, ih, Json.once_cons_self, Json.once_cons_ne hcode, hfind]
          constructor
          · rintro ⟨map, htake, hcode, hmap, hrest⟩
            exact ⟨hcode, ⟨map, htake, hmap⟩, hrest⟩
          · rintro ⟨hcode, ⟨map, htake, hmap⟩, hrest⟩
            exact ⟨map, htake, hcode, hmap, hrest⟩
        · simp only [if_neg hcode, if_neg hmap, Json.once_cons_ne hcode, Json.once_cons_ne hmap]
          -- of the members named like a stamp only the first is kept
          by_cases hstamp : isStamp (key, x) = true
          · rw [List.find?_cons_of_pos hstamp]
            cases hseen : seen.stamp with
            | none => simp [hstamp, ih]
            | some first => simp [ih, hseen]
          · rw [List.find?_cons_of_neg hstamp]
            simp [hstamp, ih]

-- ========================================================= judging the whole

/-- A map that was taken is the one that is given. -/
theorem once_map_iff {ms : List (String × Json)} {map : Option Json} :
    (∃ left, Once (orNull settled?) "map" ms none left ∧ left.getD none = map)
      ↔ GivesMap ms map := by
  constructor
  · rintro ⟨left, ⟨hnone, rfl⟩ | ⟨-, x, taken, hone, hpick, rfl⟩, rfl⟩
    · exact .missing hnone
    · by_cases hnull : x = .null
      · subst hnull
        cases hpick
        exact .null hone
      · rw [Json.orNull_of_ne hnull, Option.map_eq_some_iff] at hpick
        obtain ⟨map, hmap, rfl⟩ := hpick
        exact .given hone hnull (toOption_eq_some.1 hmap)
  · intro h
    cases h with
    | missing h => exact ⟨none, .inl ⟨h, rfl⟩, rfl⟩
    | null h => exact ⟨some none, .inr ⟨rfl, _, none, h, rfl, rfl⟩, rfl⟩
    | @given x map h hx hmap =>
        have hpick : orNull settled? x = some (some map) := by
          rw [Json.orNull_of_ne hx, settled?, toOption_eq_some.2 hmap]
          rfl
        exact ⟨some (some map), .inr ⟨rfl, x, _, h, hpick, rfl⟩, rfl⟩

/-- Some map is given if there is at most one, and it means something. -/
theorem exists_givesMap_iff {ms : List (String × Json)} :
    (∃ map, GivesMap ms map) ↔ (ms.filter (·.1 = "map")).length ≤ 1 ∧
      ∀ x, ("map", x) ∈ ms → ∃ map, Json.settle x = .ok map := by
  have hmem : ∀ x, ("map", x) ∈ ms ↔ ("map", x) ∈ ms.filter (·.1 = "map") := fun x => by simp
  simp only [hmem]
  constructor
  · rintro ⟨map, h | h | ⟨h, -, hmap⟩⟩
    · simp [h]
    · simp [h, Json.settle]
    · simpa [h] using ⟨_, hmap⟩
  · rintro ⟨hlength, hsettles⟩
    cases hnamed : ms.filter (·.1 = "map") with
    | nil => exact ⟨none, .missing hnamed⟩
    | cons m more =>
        obtain ⟨name, x⟩ := m
        obtain rfl : name = "map" := by
          have hm : (name, x) ∈ ms.filter (·.1 = "map") := hnamed ▸ List.mem_cons_self
          simpa using (List.mem_filter.1 hm).2
        obtain rfl : more = [] := by simpa [hnamed] using hlength
        obtain ⟨map, hmap⟩ := hsettles x (hnamed ▸ List.mem_cons_self)
        by_cases hnull : x = .null
        · subst hnull
          exact ⟨none, .null hnamed⟩
        · exact ⟨some map, .given hnamed hnull hmap⟩

/-- Of a member that is named like a stamp, this stamp is made. -/
theorem ofMember_eq_ok_iff {m : String × Json} (hm : isStamp m = true) {stamp : Stamp} :
    Stamp.ofMember m.1 m.2 = .ok stamp ↔ m = stamp.member ∧ stamp.Fits := by
  obtain ⟨name, x⟩ := m
  have hname : name = "mtime" ∨ name = "checksum" := by simpa [isStamp] using hm
  rcases hname with rfl | rfl
  · simp only [Stamp.ofMember, if_true]
    cases x with
    | int n =>
        by_cases hfits : -timeBound ≤ n ∧ n < timeBound
        · simp only [if_pos hfits]
          cases stamp with
          | mtime t =>
              simp only [Except.ok.injEq, Stamp.mtime.injEq, Stamp.member, Prod.mk.injEq, true_and,
                Json.int.injEq, Stamp.Fits]
              exact ⟨fun h => ⟨h, h ▸ hfits⟩, fun h => h.1⟩
          | checksum digest => simp [Stamp.member]
        · simp only [if_neg hfits]
          cases stamp with
          | mtime t =>
              simp only [reduceCtorEq, Stamp.member, Prod.mk.injEq, true_and, Json.int.injEq,
                Stamp.Fits, false_iff]
              rintro ⟨rfl, h⟩
              exact hfits h
          | checksum digest => simp [Stamp.member]
    | _ => cases stamp <;> simp [Stamp.member]
  · simp only [Stamp.ofMember, if_neg (show ("checksum" : String) ≠ "mtime" by decide)]
    cases x with
    | string text => cases stamp <;> simp [Stamp.member, Stamp.Fits]
    | _ => cases stamp <;> simp [Stamp.member]

theorem finish_eq_ok_iff {seen : EntryReading} {e : Entry} :
    seen.finish = .ok e ↔ seen.code = some e.code ∧ seen.map.getD none = e.map ∧
      ∃ m, seen.stamp = some m ∧ Stamp.ofMember m.1 m.2 = .ok e.stamp := by
  obtain ⟨code, map, stamp⟩ := e
  unfold EntryReading.finish
  cases seen.code with
  | none => simp
  | some text =>
      cases seen.stamp with
      | none => simp
      | some m => simp [map_eq_ok, and_comm, and_assoc]

/-- The entry that the members of an object make. -/
def Entry.ofMembers? (ms : List (String × Json)) : Option Entry :=
  (takeAll EntryReading.take {} ms).bind fun seen => seen.finish.toOption

theorem ofMembers?_eq_some_iff {ms : List (String × Json)} {e : Entry} :
    Entry.ofMembers? ms = some e ↔ e.OfMembers ms := by
  unfold Entry.ofMembers?
  simp only [Option.bind_eq_some_iff, toOption_eq_some, takeAll_take_iff, finish_eq_ok_iff]
  have hstamp : ∀ m, ms.find? isStamp = some m → isStamp m = true := fun m => List.find?_some
  constructor
  · rintro ⟨seen, ⟨hcode, hmap, hfirst⟩, hsome, hgiven, m, hm, hmade⟩
    have hfound : ms.find? isStamp = some m := by simpa [hm] using hfirst.symm
    obtain ⟨rfl, hfits⟩ := (ofMember_eq_ok_iff (hstamp m hfound)).1 hmade
    have hgives := once_map_iff.1 ⟨seen.map, hmap, hgiven⟩
    rw [hsome, Json.once_none_iff] at hcode
    obtain ⟨x, hone, htext⟩ := hcode
    rw [(Json.undoes_text x e.code).1 htext] at hone
    exact ⟨hone, hgives, hfound, hfits⟩
  · rintro ⟨hcode, hgives, hfound, hfits⟩
    obtain ⟨map, honce, hgiven⟩ := once_map_iff.2 hgives
    refine ⟨⟨some e.code, map, some e.stamp.member⟩, ⟨?_, honce, ?_⟩, rfl, hgiven, _, rfl, ?_⟩
    · exact Json.once_none_iff.2 ⟨_, hcode, rfl⟩
    · simp [hfound]
    · exact (ofMember_eq_ok_iff (hstamp _ hfound)).2 ⟨rfl, hfits⟩

theorem acceptable_iff {ms : List (String × Json)} :
    Entry.Acceptable ms ↔ ∃ e : Entry, e.OfMembers ms := by
  constructor
  · rintro ⟨⟨code, hcode⟩, hmap, hsettles, hstamp⟩
    obtain ⟨map, hgives⟩ := exists_givesMap_iff.2 ⟨hmap, hsettles⟩
    rcases hstamp with ⟨t, hfirst, hfits⟩ | ⟨digest, hfirst⟩
    · exact ⟨⟨code, map, .mtime t⟩, hcode, hgives, hfirst, hfits⟩
    · exact ⟨⟨code, map, .checksum digest⟩, hcode, hgives, hfirst, trivial⟩
  · rintro ⟨⟨code, map, stamp⟩, hcode, hgives, hfirst, hfits⟩
    obtain ⟨hmap, hsettles⟩ := exists_givesMap_iff.1 ⟨map, hgives⟩
    refine ⟨⟨code, hcode⟩, hmap, hsettles, ?_⟩
    cases stamp with
    | mtime t => exact .inl ⟨t, hfirst, hfits⟩
    | checksum digest => exact .inr ⟨digest, hfirst⟩

-- ============================================================= whole texts

/-- A text is an entry if it is read as members that make one. -/
theorem picks_readEntry (depth : Nat) :
    Picks (readEntry depth) (Json.memberList depth (Json.tree (depth - 1))) Entry.ofMembers? :=
  (guided_entryMembers (depth - 1)).picks "struct CacheEntry" depth {} EntryReading.finish

/-- A text is read as an entry if it is an object whose members, in the order
of the text, are acceptable, and as the entry that they make. The texts that
have members are the objects, and all lists of members are those of a text. A
map in which no object stands for a text is meant as it is, sorted. -/
theorem parse_entry_iff (text : Bytes) :
    ((∃ e, Entry.parse text = .ok e) ↔
      ∃ ms, Json.textMembers text = .ok ms ∧ Entry.Acceptable ms) ∧
    (∀ e, Entry.parse text = .ok e ↔
      ∃ ms, Json.textMembers text = .ok ms ∧ e.OfMembers ms) ∧
    (∀ ms, Json.document (Json.tree Json.depthLimit) text = .ok (.object ms) ↔
      Json.textMembers text = .ok ms) ∧
    (∀ ms, Json.PlainMembers ms → Json.depthMembers ms < Json.depthLimit →
      Json.textMembers (Utf8.encode (Json.object ms).compact) = .ok ms) ∧
    ∀ x : Json, x.Unmarked → Json.settle x = .ok x.sorted := by
  have hparse : ∀ e, Entry.parse text = .ok e ↔
      ∃ ms, Json.textMembers text = .ok ms ∧ e.OfMembers ms := by
    intro e
    rw [Entry.parse, (picks_readEntry _).document_eq_ok_iff]
    simp only [ofMembers?_eq_some_iff]
    rfl
  refine ⟨?_, hparse, fun ms => Json.document_eq_object_iff,
    fun ms => Json.textMembers_of_plain, fun x => Json.settle_of_unmarked⟩
  simp only [hparse, acceptable_iff]
  constructor
  · rintro ⟨e, ms, hms, he⟩
    exact ⟨ms, hms, e, he⟩
  · rintro ⟨ms, hms, e, he⟩
    exact ⟨e, ms, hms, he⟩

/-- Members with a later stamp of the wrong type, and a name that comes back. -/
def lateStamp : List (String × Json) :=
  [("x", .array []), ("checksum", .string "ab"), ("code", .string "c"), ("mtime", .null),
    ("x", .int 1)]

/-- The general statement over these members: the first stamp counts, and what
is unknown is passed over. -/
theorem parse_entry_iff_lateStamp :
    Json.PlainMembers lateStamp ∧ Json.depthMembers lateStamp < Json.depthLimit ∧
      Entry.parse (Utf8.encode (Json.object lateStamp).compact)
        = .ok ⟨"c", none, .checksum "ab"⟩ := by
  have hplain : Json.PlainMembers lateStamp := by
    simp [lateStamp, Json.PlainMembers, Json.Plain, Json.PlainItems, Json.IsWhole]
  have hdepth : Json.depthMembers lateStamp < Json.depthLimit := by decide
  obtain ⟨-, hparse, -, hmembers, -⟩ :=
    parse_entry_iff (Utf8.encode (Json.object lateStamp).compact)
  exact ⟨hplain, hdepth, (hparse _).2 ⟨lateStamp, hmembers lateStamp hplain hdepth,
    ⟨rfl, .missing rfl, rfl, trivial⟩⟩⟩

/-- Members with one code, one map and one time, the map beginning with the key of
a text, which is a number. -/
def markedMap : List (String × Json) :=
  [("code", .string "c"), ("map", .object [(Json.rawKey, .int 7)]), ("mtime", .int 1)]

/-- They are no entry. -/
theorem parse_markedMap_fails :
    Json.textMembers (Utf8.encode (Json.object markedMap).compact) = .ok markedMap ∧
      ∀ e, Entry.parse (Utf8.encode (Json.object markedMap).compact) ≠ .ok e := by
  have hplain : Json.PlainMembers markedMap := by
    simp [markedMap, Json.PlainMembers, Json.Plain, Json.IsWhole, Members.Sorted]
  have hfails : (Entry.parse (Utf8.encode (Json.object markedMap).compact)).toBool = false := by
    decide +kernel
  refine ⟨Json.textMembers_of_plain hplain (by decide), fun e he => ?_⟩
  rw [he] at hfails
  cases hfails

end TransformCache.Cache
