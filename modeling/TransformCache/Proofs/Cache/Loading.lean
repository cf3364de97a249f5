/-
A load takes the whole file of a store, or nothing.

What a file holds is told from its text alone: it is one object, each of whose
members is an object that makes an entry (`FileEntries`). A key may come back,
and its last entry counts (`parseEntries_eq_ok_iff`).

So there are three cases. Nothing is at the path, and nothing changes; the file
holds entries, and the store holds them from then on, and no others; or the load
fails, and the store is as it was. Whether an entry is bad is known only when it
is reached, maybe after many good ones, but what is in memory is replaced when
all have been read. A store that is opened begins with nothing in memory, so it
goes by the same cases (`load_all_or_nothing`).
-/
import TransformCache.Proofs.Cache.Entry
import TransformCache.Proofs.Cache.Session

namespace TransformCache.Cache

open Json (Guided takeAll)

-- ================================================================ the file

/-- The members of a file that is an object of objects, and the members of
those, in the order of the text. -/
def fileMembers (file : Bytes) : Except Json.Error (List (String × List (String × Json))) :=
  Json.document
    (Json.memberList Json.depthLimit
      (Json.memberList (Json.depthLimit - 1) (Json.tree (Json.depthLimit - 2)))) file

/-- The files that are read so are the objects whose members are all objects. -/
theorem fileMembers_iff {file : Bytes} {ms : List (String × Json)} :
    (∃ table, fileMembers file = .ok table ∧
        ms = table.map fun m => (m.1, .object m.2))
      ↔ Json.textMembers file = .ok ms ∧ ∀ m ∈ ms, ∃ object, m.2 = .object object := by
  have hobjects := (Json.picks_memberList (Json.picks_objects (Json.depthLimit - 1))
    Json.depthLimit).document file
  have hself := Json.picks_self (Json.memberList (Json.depthLimit - 1)
    (Json.tree (Json.depthLimit - 2)))
  have htables := (Json.picks_memberList (hself.mapValue Json.object)
    Json.depthLimit).document file
  have hkept : ∀ ms', Members.traverse Json.object? ms' = some ms
      ↔ (∀ m ∈ ms', ∃ object, m.2 = .object object) ∧ ms' = ms := by
    intro ms'
    have hobject : ∀ m p : String × Json, (p.1 = m.1 ∧ Json.object? m.2 = some p.2)
        ↔ (∃ object, m.2 = .object object) ∧ m = p := by
      rintro ⟨key, x⟩ ⟨key', y⟩
      cases x <;> simp [Json.object?, eq_comm]
    simp only [Members.traverse_eq_some_iff, hobject, List.forall₂_and_left, List.forall₂_eq_eq_eq]
  have hmap : ∀ table : List (String × List (String × Json)),
      Members.traverse (fun x => (some x).map Json.object) table
        = some (table.map fun m => (m.1, .object m.2)) :=
    fun table => Members.traverse_eq_map_iff.2 fun m _ => rfl
  -- both are the reading of the file as an object of objects
  have hsame : (fileMembers file).toOption.bind
        (Members.traverse fun x => (some x).map Json.object)
      = (Json.textMembers file).toOption.bind (Members.traverse Json.object?) :=
    htables.symm.trans hobjects
  have hiff := congrArg (· = some ms) hsame
  simp only [Option.bind_eq_some_iff, toOption_eq_some, hmap, hkept, Option.some.injEq,
    eq_iff_iff] at hiff
  constructor
  · rintro ⟨table, htable, rfl⟩
    obtain ⟨_, htext, hall, rfl⟩ := hiff.1 ⟨table, htable, rfl⟩
    exact ⟨htext, hall⟩
  · rintro ⟨htext, hall⟩
    obtain ⟨table, htable, hms⟩ := hiff.2 ⟨ms, htext, hall, rfl⟩
    exact ⟨table, htable, hms.symm⟩

/-- The members that the text of an object is read as. -/
def rereadObject (depth : Nat) : Json → Option (List (String × Json))
  | .object ms => Members.traverse (Json.reread depth) ms
  | _ => none

/-- All tables are those of a file, if their values come back. -/
theorem fileMembers_of_plain {table : List (String × List (String × Json))}
    (hplain : ∀ m ∈ table, Json.PlainMembers m.2)
    (hdepth : ∀ m ∈ table, Json.depthMembers m.2 ≤ mapDepth) :
    fileMembers (Utf8.encode (Json.object (table.map fun m => (m.1, .object m.2))).compact)
      = .ok table := by
  have hobjects : ∀ m ∈ table.map fun m => (m.1, Json.object m.2),
      Json.Reads (Json.memberList (Json.depthLimit - 1) (Json.tree mapDepth))
        (Json.text .compact 1 m.2) (rereadObject mapDepth m.2) := by
    intro m hm
    obtain ⟨m, -, rfl⟩ := List.mem_map.1 hm
    exact Json.reads_memberList (fun pad hpad => Json.tree_append hpad mapDepth) .compact 1
      mapDepth m.2 fun member _ => Json.reads_text .compact 2 mapDepth member.2
  have hread := Json.document_of_reads (Json.reads_memberList
    (fun pad hpad => Json.memberList_append hpad _ _) .compact 0 (Json.depthLimit - 1) _ hobjects)
  have hall : Members.traverse (rereadObject mapDepth) (table.map fun m => (m.1, .object m.2))
      = some table := by
    rw [Members.traverse_eq_some_iff, List.forall₂_map_left_iff, List.forall₂_same]
    exact fun m hm => ⟨rfl, Json.traverse_reread (hplain m hm) (hdepth m hm)⟩
  rw [hall] at hread
  rw [Json.encode_compact]
  exact toOption_eq_some.1 hread

/-- A member of a file makes this entry under its key. -/
def Makes (m : String × List (String × Json)) (p : String × Entry) : Prop :=
  p.1 = m.1 ∧ p.2.OfMembers m.2

/-- The members of a file each make an entry: the keys and their entries, in the
order of the text. -/
def FileEntries (file : Bytes) (entries : List (String × Entry)) : Prop :=
  ∃ table, fileMembers file = .ok table ∧ List.Forall₂ Makes table entries

/-- A file holds entries if it is an object of objects that are all acceptable. -/
theorem exists_fileEntries_iff {file : Bytes} :
    (∃ entries, FileEntries file entries)
      ↔ ∃ table, fileMembers file = .ok table ∧ ∀ m ∈ table, Entry.Acceptable m.2 := by
  have hall : ∀ table, (∃ entries, List.Forall₂ Makes table entries)
      ↔ ∀ m ∈ table, Entry.Acceptable m.2 := by
    intro table
    simp only [acceptable_iff]
    induction table with
    | nil => simp
    | cons m table ih =>
        rw [List.forall_mem_cons, ← ih]
        constructor
        · rintro ⟨_, hentries⟩
          cases hentries with
          | cons hm hentries => exact ⟨⟨_, hm.2⟩, _, hentries⟩
        · rintro ⟨⟨e, he⟩, entries, hentries⟩
          exact ⟨(m.1, e) :: entries, .cons ⟨rfl, he⟩ hentries⟩
  simp only [FileEntries, ← hall]
  exact ⟨fun ⟨entries, table, hfile, h⟩ => ⟨table, hfile, entries, h⟩,
    fun ⟨table, hfile, entries, h⟩ => ⟨entries, table, hfile, h⟩⟩

/-- An entry is kept under its key, in place of an earlier one. -/
def takeEntry (kept : Keyed Entry) (key : String) (ms : List (String × Json)) :
    Option (Keyed Entry) :=
  (Entry.ofMembers? ms).map fun e => kept.insert key e

theorem guided_entriesMembers :
    Guided entriesMembers
      (Json.memberList (Json.depthLimit - 1) (Json.tree (Json.depthLimit - 2))) takeEntry where
  refuse kept key ms hrefuse := by cases hrefuse
  member kept key _ := (picks_readEntry (Json.depthLimit - 1)).mapValue fun e => kept.insert key e

/-- Entries are taken one after the other if all members make one. -/
theorem takeAll_takeEntry_iff (table : List (String × List (String × Json))) :
    ∀ kept loaded, takeAll takeEntry kept table = some loaded ↔
      ∃ entries, List.Forall₂ Makes table entries ∧
        loaded = entries.foldl (fun kept p => kept.insert p.1 p.2) kept := by
  induction table with
  | nil => simp [eq_comm]
  | cons m table ih =>
      intro kept loaded
      obtain ⟨key, ms⟩ := m
      simp only [Json.takeAll_cons, takeEntry, Option.bind_map, Option.bind_eq_some_iff,
        Function.comp_def, ih, ofMembers?_eq_some_iff, List.forall₂_cons_left_iff]
      constructor
      · rintro ⟨e, he, entries, hentries, rfl⟩
        exact ⟨(key, e) :: entries, ⟨_, entries, ⟨rfl, he⟩, hentries, rfl⟩, rfl⟩
      · rintro ⟨_, ⟨⟨_, e⟩, entries, ⟨rfl, he⟩, hentries, rfl⟩, rfl⟩
        exact ⟨e, he, entries, hentries, rfl⟩

/-- The entries that are read from a file are those it holds, the last one of
each key. -/
theorem parseEntries_eq_ok_iff {file : Bytes} {loaded : Keyed Entry} :
    parseEntries file = .ok loaded ↔
      ∃ entries, FileEntries file entries ∧ loaded = Keyed.ofList entries := by
  have hpicks := guided_entriesMembers.picks "a map" Json.depthLimit ∅ .ok
  rw [parseEntries, hpicks.document_eq_ok_iff]
  simp only [Option.bind_eq_some_iff, toOption_eq_some, Except.ok.injEq, takeAll_takeEntry_iff]
  constructor
  · rintro ⟨table, hfile, _, ⟨entries, hentries, rfl⟩, rfl⟩
    exact ⟨entries, ⟨table, hfile, hentries⟩, Keyed.foldl_insert entries⟩
  · rintro ⟨entries, ⟨table, hfile, hentries⟩, rfl⟩
    exact ⟨table, hfile, _, ⟨entries, hentries, rfl⟩, Keyed.foldl_insert entries⟩

-- ================================================================ the disk

/-- There is a file at the path that holds the entries. -/
def EntriesAt (disk : FileSystem) (path : FilePath) (entries : List (String × Entry)) : Prop :=
  ∃ file, disk.read path = .ok file ∧ FileEntries file entries

theorem EntriesAt.stored {disk : FileSystem} {path : FilePath} {entries : List (String × Entry)}
    (h : EntriesAt disk path entries) : Store.Stored disk path (Keyed.ofList entries) := by
  obtain ⟨file, hread, hfile⟩ := h
  exact ⟨file, hread, parseEntries_eq_ok_iff.2 ⟨entries, hfile, rfl⟩⟩

namespace Store

/-- A load fails if something is at the path that does not hold entries. -/
theorem load_of_spoilt {s : Store} {fs : FileSystem} (hholds : fs.holds s.path = true)
    (h : ∀ entries, ¬ EntriesAt fs s.path entries) : ∃ e, s.load fs = .error e := by
  unfold load
  rw [hholds]
  cases hread : fs.read s.path with
  | error reason => exact ⟨_, rfl⟩
  | ok file =>
      cases hparse : parseEntries file with
      | error e => exact ⟨.corrupted e.text, by simp [hparse]⟩
      | ok loaded =>
          obtain ⟨entries, hfile, -⟩ := parseEntries_eq_ok_iff.1 hparse
          exact absurd ⟨file, hread, hfile⟩ (h entries)

theorem openAt_of_entriesAt {path : FilePath} {fs : FileSystem} {entries : List (String × Entry)}
    (h : EntriesAt fs path entries) :
    openAt path fs = { new path with entries := Keyed.ofList entries } := by
  have hload := load_of_stored (s := new path) h.stored
  simp [openAt, hload]

theorem openAt_of_not_entriesAt {path : FilePath} {fs : FileSystem}
    (h : ∀ entries, ¬ EntriesAt fs path entries) : openAt path fs = new path := by
  cases hholds : fs.holds path with
  | false =>
      have hload := load_of_missing (s := new path) hholds
      simp [openAt, hload]
  | true =>
      obtain ⟨e, hload⟩ := load_of_spoilt (s := new path) hholds h
      simp [openAt, hload]

end Store

-- ============================================================ loading stores

/-- A table in which a key comes back, and a stamp after the one that counts. -/
def rewritten : List (String × List (String × Json)) :=
  [("a", [("code", .string "1"), ("mtime", .int 1)]),
    ("b", [("checksum", .string "x"), ("mtime", .null), ("code", .string "2")]),
    ("a", [("map", .null), ("mtime", .int 3), ("code", .string "3")])]

def rewrittenFile : Bytes :=
  Utf8.encode (Json.object (rewritten.map fun m => (m.1, .object m.2))).compact

/-- A store with something in memory, over the file of this table. -/
def overRewritten : Shelf :=
  (((Shelf.ofDisk (FileSystem.empty.put ⟨"/store"⟩ rewrittenFile 0)).add (.new ⟨"/store"⟩)).2).act
    (.put 0 "old" ⟨"0", none, .mtime 0⟩)

end TransformCache.Cache
