/-
The file of a store says what the store held.

# What comes back of any entries

`Entry.reread` is what becomes of an entry that is written and read, or
nothing if the file is then refused: its code comes back, its map as what is
meant by it, and its stamp unless it is a time of more than 64 bits. A file is
read as the entries that come back, all of them or none
(`parseEntries_entriesFile`). So whatever a file holds, the codes and stamps
in it are ones that were written (`reread_keeps`).

# What comes back of plain entries

Of maps of whole numbers and times of 64 bits, nothing is changed by writing
(`Entry.reread_of_plain`). They are lost only with the whole file, which is
refused if it nests too deep or a map in it stands for a text that is none. Of
the others those come back that hold no object which stands for a text, except
that a map which is `null` is none (`flush_load_round_trip`).
-/
import TransformCache.Proofs.Cache.Flush
import TransformCache.Proofs.Json.Settle
import TransformCache.Proofs.Keyed

namespace TransformCache.Cache

open Json (Layout Reads Feeds Picks text memberTexts reread orNull settled?)

-- ================================================================= objects

section Objects

variable {σ α : Type} {m : Json.MemberRule σ} {L : Layout} {level : Nat} {start : σ}

/-- What the members of an object come to is judged at its end. -/
theorem objectOf_members {after rest : Bytes} {o : Option σ} {depth : Nat} (hdepth : depth ≠ 0)
    (hmembers : (Json.members m (after.length + 1) true start after).toOption
      = o.map (·, rest)) (expected : String) (finish : σ → Except Json.Fault α) :
    (Json.objectOf expected depth m start finish (0x7B :: after)).toOption
      = (o.bind fun s => (finish s).toOption).map (·, rest) := by
  have hopen : Json.skipBlanks (0x7B :: after) = 0x7B :: after := Json.skipBlanks_cons rfl after
  simp only [Json.objectOf, hopen, if_neg hdepth]
  rw [Json.toOption_andThen, hmembers]
  cases o with
  | none => rfl
  | some s =>
      simp only [Option.map_some, Option.bind_some]
      cases finish s with
      | error fault => rfl
      | ok x => rfl

/-- An object is read as what its members feed the rule with. -/
theorem reads_objectOf {ms : List (String × Json)} {o : Option σ}
    (h : Feeds m L.gap start (memberTexts L (level + 1) ms) o) {depth : Nat}
    (hdepth : depth ≠ 0) (expected : String) (finish : σ → Except Json.Fault α) :
    Reads (Json.objectOf expected depth m start finish) (text L level (.object ms))
      (o.bind fun s => (finish s).toOption) := by
  intro rest _
  cases ms with
  | nil =>
      have hnil : ∀ b ∈ ([] : Bytes), Json.isBlank b = true :=
        fun _ h => (List.not_mem_nil h).elim
      have hclose : Json.members m ((0x7D :: rest).length + 1) true start (0x7D :: rest)
          = .ok (start, rest) := Json.members_close hnil true start _ rest
      have ho : o = some start := by
        cases h
        rfl
      have hmembers : (Json.members m ((0x7D :: rest).length + 1) true start
          (0x7D :: rest)).toOption = o.map (·, rest) := by
        rw [hclose, ho]
        rfl
      exact objectOf_members hdepth hmembers expected finish
  | cons head ms =>
      obtain ⟨key, x⟩ := head
      rw [memberTexts] at h
      have hmembers := Json.members_nonempty (L.blank_line (level + 1)) (L.blank_line level) h rest
      rw [text, List.cons_append]
      exact objectOf_members hdepth hmembers expected finish

theorem objectOf_append {pad : Bytes} (h : ∀ b ∈ pad, Json.isBlank b = true) (expected : String)
    (depth : Nat) (finish : σ → Except Json.Fault α) (rest : Bytes) :
    Json.objectOf expected depth m start finish (pad ++ rest)
      = Json.objectOf expected depth m start finish rest := by
  simp only [Json.objectOf, Json.skipBlanks_append h]

end Objects

-- ================================================================= entries

/-- A time of 64 bits, or a checksum. -/
def Stamp.Fits : Stamp → Prop
  | .mtime ms => -timeBound ≤ ms ∧ ms < timeBound
  | .checksum _ => True

instance : ∀ stamp : Stamp, Decidable stamp.Fits
  | .mtime ms => inferInstanceAs (Decidable (-timeBound ≤ ms ∧ ms < timeBound))
  | .checksum _ => inferInstanceAs (Decidable True)

/-- What an entry is read as, where its map may have `depth` containers open. -/
def Entry.reread (depth : Nat) (e : Entry) : Option Entry :=
  ((Json.reread depth (e.map.getD .null)).bind (orNull settled?)).bind fun map =>
    if e.stamp.Fits then some { e with map } else none

/-- A stamp comes back if it fits, and is refused otherwise. -/
theorem ofMember_reread (depth : Nat) (stamp : Stamp) :
    ((reread depth stamp.member.2).bind fun x => (Stamp.ofMember stamp.member.1 x).toOption)
      = if stamp.Fits then some stamp else none := by
  cases stamp with
  | checksum digest => rfl
  | mtime ms =>
      show ((reread depth (.int ms)).bind fun x => (Stamp.ofMember "mtime" x).toOption) = _
      rw [reread, Json.rereadNumber_int]
      by_cases hwhole : Json.IsWhole ms
      · rw [if_pos hwhole]
        show (if -timeBound ≤ ms ∧ ms < timeBound then Except.ok (Stamp.mtime ms)
          else .error (.wrongValue (.int ms) "i64") : Except Json.Fault Stamp).toOption = _
        by_cases hfits : -timeBound ≤ ms ∧ ms < timeBound
        · rw [if_pos hfits, if_pos (show (Stamp.mtime ms).Fits from hfits)]
          rfl
        · rw [if_neg hfits, if_neg (show ¬ (Stamp.mtime ms).Fits from hfits)]
          rfl
      · have hfits : ¬ (Stamp.mtime ms).Fits := by
          unfold Stamp.Fits timeBound
          unfold Json.IsWhole at hwhole
          omega
        rw [if_neg hwhole, if_neg hfits]
        cases Json.ofDigits ms with
        | none => rfl
        | some x => rfl

/-- A string is read where one is wanted. -/
theorem reads_stringOf {gap : Bytes} (hgap : ∀ b ∈ gap, Json.isBlank b = true)
    (expected s : String) :
    Reads (Json.stringOf expected) (gap ++ Json.stringText s) (some s) := by
  intro rest _
  obtain ⟨after, htext, hbody⟩ := Json.stringBody_stringText s rest
  have hquote : Json.skipBlanks (0x22 :: after) = 0x22 :: after := Json.skipBlanks_cons rfl after
  have hscalar : Json.scalar (0x22 :: after) = .ok (.string s, rest) := by
    show Json.mapValue Json.string (Json.stringBody after) = _
    rw [hbody]
    rfl
  rw [List.append_assoc, htext]
  simp only [Json.stringOf, Json.scalarOf, Json.skipBlanks_append hgap, hquote, hscalar]
  rfl

/-- What is picked from values as they are written is read as what is picked from
what is read of them. -/
theorem reads_of_picks {α : Type} {r : Json.Reader α} {pick : Json → Option α} {depth : Nat}
    (h : Picks r (Json.tree depth) pick) (L : Layout) (level : Nat) (x : Json) :
    Reads r (L.gap ++ text L level x) ((reread depth x).bind pick) := by
  intro rest hrest
  rw [h, List.append_assoc, Json.tree_append L.blank_gap,
    Json.reads_text L level depth x rest hrest]
  cases reread depth x with
  | none => rfl
  | some y => rfl

/-- The name of a stamp is no other member's. -/
theorem member_ne (stamp : Stamp) :
    stamp.member.1 ≠ "code" ∧ stamp.member.1 ≠ "map" ∧
      (stamp.member.1 = "mtime" ∨ stamp.member.1 = "checksum") := by
  cases stamp with
  | mtime ms =>
      show "mtime" ≠ "code" ∧ "mtime" ≠ "map" ∧ ("mtime" = "mtime" ∨ "mtime" = "checksum")
      decide
  | checksum digest =>
      show "checksum" ≠ "code" ∧ "checksum" ≠ "map" ∧
        ("checksum" = "mtime" ∨ "checksum" = "checksum")
      decide

theorem refuse_stamp (depth : Nat) (seen : EntryReading) (stamp : Stamp) :
    (entryMembers depth).refuse seen stamp.member.1 = none := by
  obtain ⟨hnocode, hnomap, -⟩ := member_ne stamp
  simp [entryMembers, hnocode, hnomap]

/-- The stamp is kept as a member, and judged later. -/
theorem reads_stamp (L : Layout) (level depth : Nat) (code : String) (map : Option Json)
    (stamp : Stamp) :
    Reads ((entryMembers depth).member ⟨some code, some map, none⟩ stamp.member.1)
      (L.gap ++ text L level stamp.member.2)
      ((reread depth stamp.member.2).map
        fun value => ⟨some code, some map, some (stamp.member.1, value)⟩) := by
  obtain ⟨hnocode, hnomap, hname⟩ := member_ne stamp
  have hrule : (entryMembers depth).member ⟨some code, some map, none⟩ stamp.member.1
      = fun rest => Json.mapValue
        (fun value => ⟨some code, some map, some (stamp.member.1, value)⟩)
        (Json.tree depth rest) := by
    funext rest
    simp only [entryMembers, if_neg hnocode, if_neg hnomap, hname, Option.isNone_none,
      and_self, if_true]
  rw [hrule, Option.map_eq_bind]
  exact reads_of_picks ((Json.picks_self (Json.tree depth)).mapValue _) L level stamp.member.2

/-- The members of an entry are read one by one. -/
theorem feeds_entry (L : Layout) (level depth : Nat) (e : Entry) :
    Feeds (entryMembers depth) L.gap {}
      (memberTexts L level
        [("code", .string e.code), ("map", e.map.getD .null), e.stamp.member])
      (((reread depth (e.map.getD .null)).bind (orNull settled?)).bind fun map =>
        (reread depth e.stamp.member.2).map fun stamp =>
          ⟨some e.code, some map, some (e.stamp.member.1, stamp)⟩) := by
  have htexts : memberTexts L level
        [("code", .string e.code), ("map", e.map.getD .null), e.stamp.member]
      = [("code", Json.stringText e.code), ("map", text L level (e.map.getD .null)),
        (e.stamp.member.1, text L level e.stamp.member.2)] := rfl
  rw [htexts]
  have hcode : Reads ((entryMembers depth).member {} "code")
      (L.gap ++ Json.stringText e.code) (some ⟨some e.code, none, none⟩) :=
    (reads_stringOf L.blank_gap "a string" e.code).mapValue
      fun code => (⟨some code, none, none⟩ : EntryReading)
  have hmap : Reads ((entryMembers depth).member ⟨some e.code, none, none⟩ "map")
      (L.gap ++ text L level (e.map.getD .null))
      (((reread depth (e.map.getD .null)).bind (orNull settled?)).map
        fun map => ⟨some e.code, some map, none⟩) :=
    (reads_of_picks (Json.picks_optional (Json.picks_value depth)) L level
      (e.map.getD .null)).mapValue fun map => (⟨some e.code, some map, none⟩ : EntryReading)
  refine .cons rfl hcode ?_
  cases hv : (reread depth (e.map.getD .null)).bind (orNull settled?) with
  | none =>
      rw [hv] at hmap
      exact .refused rfl hmap
  | some map =>
      rw [hv] at hmap
      refine .cons rfl hmap ?_
      have hlast := reads_stamp L level depth e.code map e.stamp
      rw [Option.bind_some]
      cases hw : reread depth e.stamp.member.2 with
      | none =>
          rw [hw] at hlast
          exact .refused (refuse_stamp ..) hlast
      | some stamp =>
          rw [hw] at hlast
          exact .cons (refuse_stamp ..) hlast (.nil _)

/-- What the members come to is judged by the stamp. -/
theorem toOption_finish (code : String) (map : Option Json) (name : String) (value : Json) :
    (EntryReading.finish ⟨some code, some map, some (name, value)⟩).toOption
      = (Stamp.ofMember name value).toOption.map fun stamp => ⟨code, map, stamp⟩ := by
  show (Except.map _ (Stamp.ofMember name value)).toOption = _
  cases Stamp.ofMember name value with
  | error fault => rfl
  | ok stamp => rfl

theorem reads_entry (L : Layout) (level : Nat) (e : Entry) {depth : Nat} (hdepth : depth ≠ 0) :
    Reads (readEntry depth) (text L level e.toJson) (e.reread (depth - 1)) := by
  have hread := reads_objectOf (feeds_entry L (level + 1) (depth - 1) e) hdepth
    "struct CacheEntry" EntryReading.finish
  suffices heq : e.reread (depth - 1)
      = (((reread (depth - 1) (e.map.getD .null)).bind (orNull settled?)).bind fun map =>
        (reread (depth - 1) e.stamp.member.2).map fun stamp =>
          (⟨some e.code, some map, some (e.stamp.member.1, stamp)⟩ : EntryReading)).bind
          fun seen => seen.finish.toOption by
    rw [heq]
    exact hread
  have hback := ofMember_reread (depth - 1) e.stamp
  unfold Entry.reread
  cases (reread (depth - 1) (e.map.getD .null)).bind (orNull settled?) with
  | none => rfl
  | some map =>
      rw [Option.bind_some, Option.bind_some, Option.bind_map]
      have hall : ((reread (depth - 1) e.stamp.member.2).bind fun stamp =>
            (Stamp.ofMember e.stamp.member.1 stamp).toOption.map
              fun stamp => (⟨e.code, map, stamp⟩ : Entry))
          = (if e.stamp.Fits then some e.stamp else none).map
            fun stamp => ⟨e.code, map, stamp⟩ := by
        rw [← hback]
        cases reread (depth - 1) e.stamp.member.2 with
        | none => rfl
        | some stamp => rfl
      simp only [Function.comp_def, toOption_finish, hall]
      split
      · rfl
      · rfl

-- ================================================================ the file

/-- How deep the map of an entry may nest in the file of a store: the file is
an object of objects. -/
def mapDepth : Nat := Json.depthLimit - 2

theorem feeds_entries (L : Layout) (level : Nat) :
    ∀ (members : List (String × Entry)) (kept : Keyed Entry),
      Feeds entriesMembers L.gap kept
        (memberTexts L level (members.map fun m => (m.1, m.2.toJson)))
        ((Members.traverse (Entry.reread mapDepth) members).map
          fun read => read.foldl (fun kept m => kept.insert m.1 m.2) kept)
  | [], kept => .nil kept
  | (key, e) :: rest, kept => by
      have hentry : Reads (readEntry (Json.depthLimit - 1)) (text L level e.toJson)
          (e.reread mapDepth) := reads_entry L level e (by decide)
      have hmember : Reads (entriesMembers.member kept key) (L.gap ++ text L level e.toJson)
          ((e.reread mapDepth).map fun e => kept.insert key e) := by
        intro after hafter
        show (Json.mapValue _ (readEntry (Json.depthLimit - 1)
          (L.gap ++ text L level e.toJson ++ after))).toOption = _
        rw [List.append_assoc, readEntry, objectOf_append L.blank_gap]
        exact hentry.mapValue _ after hafter
      rw [List.map_cons, memberTexts, Members.traverse]
      cases he : e.reread mapDepth with
      | none =>
          rw [he] at hmember
          exact .refused rfl hmember
      | some e' =>
          rw [he] at hmember
          refine .cons rfl hmember ?_
          have hrest := feeds_entries L level rest (kept.insert key e')
          rw [Option.bind_some, Option.map_map]
          exact hrest

/-- The file of a store is read as the entries that come back. -/
theorem parseEntries_entriesFile (entries : Keyed Entry) :
    (parseEntries (entriesFile entries)).toOption
      = (Members.traverse (Entry.reread mapDepth) entries.members).map Keyed.ofList := by
  have hfeeds := feeds_entries .pretty 1 entries.members ∅
  have hread : Reads (Json.objectOf "a map" Json.depthLimit entriesMembers ∅ .ok)
      (text .pretty 0 (entriesJson entries)) _ :=
    reads_objectOf hfeeds (by decide) "a map" Except.ok
  unfold parseEntries entriesFile
  rw [Json.encode_pretty, Json.document_of_reads hread]
  cases Members.traverse (Entry.reread mapDepth) entries.members with
  | none => rfl
  | some read => exact congrArg some (Keyed.foldl_insert read)

theorem reread_keeps {depth : Nat} {e e' : Entry} (h : e.reread depth = some e') :
    e'.code = e.code ∧ e'.stamp = e.stamp := by
  obtain ⟨map, -, hmap⟩ := Option.bind_eq_some_iff.1 h
  split at hmap
  · cases hmap
    exact ⟨rfl, rfl⟩
  · cases hmap

/-- Whatever is read from the file of a store was written to it. -/
theorem get?_of_parseEntries {entries read : Keyed Entry}
    (h : parseEntries (entriesFile entries) = .ok read) {key : String} {e' : Entry}
    (he : read.get? key = some e') :
    ∃ e, entries.get? key = some e ∧ e'.code = e.code ∧ e'.stamp = e.stamp := by
  have hback := parseEntries_entriesFile entries
  rw [h] at hback
  obtain ⟨members, htraverse, hread⟩ := Option.map_eq_some_iff.1 hback.symm
  have hfind : read.get? key = Members.find? key members := by
    rw [← hread, Keyed.get?,
      Keyed.members_ofList (Members.sorted_traverse htraverse entries.sorted)]
  rw [hfind, Members.find?_traverse htraverse] at he
  obtain ⟨e, hget, hreread⟩ := Option.bind_eq_some_iff.1 he
  exact ⟨e, hget, reread_keeps hreread⟩

-- =========================================================== plain entries

/-- A map that is `null` is none. -/
def presentMap : Json → Option Json
  | .null => none
  | x => some x

/-- An entry with a time of 64 bits or a checksum, and a map of whole numbers. -/
def Entry.Plain (e : Entry) : Prop := e.stamp.Fits ∧ ∀ map ∈ e.map, Json.Plain map

/-- No object in the map of an entry stands for a text. -/
def Entry.Unmarked (e : Entry) : Prop := ∀ map ∈ e.map, Json.Unmarked map

theorem Entry.unmarked_of_map_eq_none {e : Entry} (h : e.map = none) : e.Unmarked := by
  intro map hmap
  rw [h] at hmap
  cases hmap

/-- An entry as it is after a reload: a map that is `null` is none. -/
def Entry.reloaded (e : Entry) : Entry := { e with map := e.map.bind presentMap }

/-- How deep the map of an entry nests. -/
def Entry.mapNesting (e : Entry) : Nat := (e.map.getD .null).depth

/-- An entry with the map that is meant by its map, if it means any. -/
def Entry.settled? (e : Entry) : Option Entry :=
  (orNull Json.settled? (e.map.getD .null)).map fun map => { e with map }

theorem Entry.Plain.map_getD {e : Entry} (h : e.Plain) : (e.map.getD .null).Plain := by
  cases hm : e.map with
  | none => exact trivial
  | some map => exact h.2 map hm

/-- A plain entry comes back as it is meant if its map does not nest too deep. -/
theorem Entry.reread_of_plain {e : Entry} (h : e.Plain) (depth : Nat) :
    e.reread depth = if e.mapNesting ≤ depth then e.settled? else none := by
  unfold Entry.reread Entry.mapNesting Entry.settled?
  rw [Json.reread_of_plain depth _ h.map_getD]
  split
  · simp only [Option.bind_some, if_pos h.1, Option.map_eq_bind]
    rfl
  · rfl

/-- An entry is meant to be something if its map is. -/
theorem Entry.exists_settled_iff {e : Entry} :
    (∃ e', e.settled? = some e') ↔ ∀ map ∈ e.map, ∃ x, Json.settle map = .ok x := by
  unfold Entry.settled?
  cases e.map with
  | none => simp [orNull]
  | some map =>
      simp only [Option.getD_some, Option.map_eq_some_iff, Option.mem_def, Option.some.injEq,
        forall_eq']
      by_cases hnull : map = .null
      · subst hnull
        simp [orNull, Json.settle]
      · simp [Json.orNull_of_ne hnull, Json.settled?, toOption_eq_some]

/-- A plain entry is meant as it is, but for a map that is `null`, if no object in
its map stands for a text. -/
theorem Entry.settled?_eq_reloaded_iff {e : Entry} (h : e.Plain) :
    e.settled? = some e.reloaded ↔ e.Unmarked := by
  have hordered : (e.map.getD .null).Every Json.Ordered :=
    ((Json.plain_iff _).1 h.map_getD).2.2
  obtain ⟨code, map, stamp⟩ := e
  unfold Entry.settled? Entry.reloaded Entry.Unmarked
  cases map with
  | none => simp [orNull]
  | some map =>
      simp only [Option.getD_some, Option.mem_def, Option.some.injEq, forall_eq',
        Option.bind_some] at hordered ⊢
      rw [← Json.settle_eq_ok_iff hordered]
      cases map with
      | null => simp [orNull, presentMap, Json.settle]
      | _ => simp [orNull, presentMap, Json.settled?, toOption_eq_some]

/-- A file nests too deep only through the map of an entry. -/
theorem depth_entriesJson_le_iff (entries : Keyed Entry) :
    (entriesJson entries).depth ≤ Json.depthLimit
      ↔ ∀ m ∈ entries.members, m.2.mapNesting ≤ mapDepth := by
  have hentry : ∀ e : Entry, e.toJson.depth = e.mapNesting + 1 := by
    intro e
    have hstamp : e.stamp.member.2.depth = 0 := by
      cases e.stamp with
      | mtime ms => rfl
      | checksum digest => rfl
    simp [Entry.toJson, Json.depth, Json.depthMembers, hstamp, Entry.mapNesting]
  have hlevel : ∀ n, n + 1 ≤ 126 ↔ n ≤ mapDepth := fun n => by
    rw [show mapDepth = 125 from rfl]
    omega
  show Json.depthMembers (entries.members.map fun m => (m.1, m.2.toJson)) + 1 ≤ 127 ↔ _
  rw [Nat.succ_le_iff, Nat.lt_succ_iff, Json.depthMembers_le_iff]
  simp only [List.mem_map, forall_exists_index, and_imp, forall_apply_eq_imp_iff₂, hentry,
    hlevel]

/-- Plain entries come back as they are meant, all of them or none, if the file does
not nest too deep. -/
theorem parseEntries_of_plain {entries : Keyed Entry} (h : ∀ m ∈ entries.members, m.2.Plain) :
    (parseEntries (entriesFile entries)).toOption
      = if (entriesJson entries).depth ≤ Json.depthLimit
        then (Members.traverse Entry.settled? entries.members).map Keyed.ofList else none := by
  rw [parseEntries_entriesFile]
  by_cases hdepth : ∀ m ∈ entries.members, m.2.mapNesting ≤ mapDepth
  · have hall : Members.traverse (Entry.reread mapDepth) entries.members
        = Members.traverse Entry.settled? entries.members :=
      Members.traverse_congr fun m hm => by
        rw [Entry.reread_of_plain (h m hm), if_pos (hdepth m hm)]
    rw [if_pos ((depth_entriesJson_le_iff entries).2 hdepth), hall]
  · rw [if_neg fun hle => hdepth ((depth_entriesJson_le_iff entries).1 hle)]
    obtain ⟨m, hm, hdeep⟩ : ∃ m ∈ entries.members, ¬ m.2.mapNesting ≤ mapDepth := by
      simpa using hdepth
    have hnone : m.2.reread mapDepth = none := by
      rw [Entry.reread_of_plain (h m hm), if_neg hdeep]
    rw [Members.traverse_eq_none hm hnone]
    rfl

/-- They come back as they are, but for maps that are `null`, if no object in them
stands for a text. -/
theorem parseEntries_eq_ok_iff_unmarked {entries : Keyed Entry}
    (h : ∀ m ∈ entries.members, m.2.Plain)
    (hdepth : (entriesJson entries).depth ≤ Json.depthLimit) :
    parseEntries (entriesFile entries) = .ok (entries.map Entry.reloaded)
      ↔ ∀ m ∈ entries.members, m.2.Unmarked := by
  rw [← toOption_eq_some, parseEntries_of_plain h, if_pos hdepth, Keyed.traverse_eq_some_map_iff]
  exact forall₂_congr fun m hm => Entry.settled?_eq_reloaded_iff (h m hm)

/-- A store that is opened over the file of plain entries holds these. -/
theorem openAt_of_plain {fs : FileSystem} {path : FilePath} {entries : Keyed Entry}
    (hread : fs.read path = .ok (entriesFile entries)) (h : ∀ m ∈ entries.members, m.2.Plain)
    (hunmarked : ∀ m ∈ entries.members, m.2.Unmarked)
    (hdepth : (entriesJson entries).depth ≤ Json.depthLimit) :
    Store.openAt path fs
      = { Store.new path with entries := entries.map Entry.reloaded } := by
  have hstored : Store.Stored fs (Store.new path).path (entries.map Entry.reloaded) :=
    ⟨_, hread, (parseEntries_eq_ok_iff_unmarked h hdepth).2 hunmarked⟩
  have hload := Store.load_of_stored hstored
  unfold Store.openAt
  rw [hload]

-- ========================================================== main statement

/-- After a flush that succeeded, loading a store of the same file succeeds
exactly if the file nests no deeper than can be read and every map means
something. It then answers the number of entries and takes over the very mapping
that was flushed, a map that is `null` apart, exactly if no object in a map stands
for a text. -/
theorem flush_load_round_trip {s t : Store} {fs fs' : FileSystem} (hon : s.enabled = true)
    (hplain : ∀ key e, s.entries.get? key = some e → e.Plain)
    (hflush : s.flush fs = (.ok (), fs')) (hpath : t.path = s.path) :
    ((∃ loaded, t.load fs' = .ok loaded) ↔
      (entriesJson s.entries).depth ≤ Json.depthLimit ∧
        ∀ key e, s.entries.get? key = some e → ∀ map ∈ e.map, ∃ x, Json.settle map = .ok x) ∧
      ((entriesJson s.entries).depth ≤ Json.depthLimit →
        (t.load fs' = .ok (s.entries.size, { t with entries := s.entries.map Entry.reloaded })
          ↔ ∀ key e, s.entries.get? key = some e → e.Unmarked)) := by
  have hread : fs'.read t.path = .ok (entriesFile s.entries) := by
    rw [hpath]
    exact Store.read_of_flush hon hflush
  have hmembers : ∀ m ∈ s.entries.members, m.2.Plain := Keyed.forall_members_iff.2 hplain
  constructor
  · have hparse : (∃ loaded, t.load fs' = .ok loaded)
        ↔ ∃ entries, (parseEntries (entriesFile s.entries)).toOption = some entries := by
      simp only [Store.load_eq_ok_iff_of_read hread, toOption_eq_some]
      exact ⟨fun ⟨_, entries, h, _⟩ => ⟨entries, h⟩, fun ⟨entries, h⟩ => ⟨_, entries, h, rfl⟩⟩
    rw [hparse, parseEntries_of_plain hmembers]
    simp only [← Entry.exists_settled_iff]
    rw [← Keyed.forall_members_iff]
    by_cases hdepth : (entriesJson s.entries).depth ≤ Json.depthLimit
    · rw [if_pos hdepth, ← Members.exists_traverse_iff]
      simp only [Option.map_eq_some_iff, hdepth, true_and]
      exact ⟨fun ⟨_, read, h, _⟩ => ⟨read, h⟩, fun ⟨read, h⟩ => ⟨_, read, h, rfl⟩⟩
    · simp [hdepth]
  · intro hdepth
    rw [← Keyed.forall_members_iff, ← parseEntries_eq_ok_iff_unmarked hmembers hdepth,
      ← Store.load_eq_iff_of_read hread, Keyed.size_map]

/-- An entry with a key and a code that have to be escaped, and with numbers at
both ends of what is kept. -/
def extreme : Store :=
  { Store.new ⟨"/store.json"⟩ with
    entries := Keyed.ofList
      [("k\"\u0001", ⟨"say(\"é😀\\n\");\n", some (.array [.int 18446744073709551615]),
        .mtime (-9223372036854775808)⟩)] }

/-- The general statement over an extreme entry on an empty disk. -/
theorem flush_load_round_trip_extreme :
    (extreme.flush .empty).1 = .ok () ∧
      (Store.new extreme.path).load (extreme.flush .empty).2
        = .ok (1, { Store.new extreme.path with
          entries := extreme.entries.map Entry.reloaded }) := by
  have hok : ∀ r : Except Error Unit, r.toBool = true → r = .ok () := fun r hr => by
    cases r with
    | ok u => rfl
    | error e => cases hr
  have hpair : ∀ r : Except Error Unit × FileSystem, r.1 = .ok () → r = (.ok (), r.2) :=
    fun r hr => Prod.ext hr rfl
  have hflushed := hok (extreme.flush .empty).1 (by decide +kernel)
  have hmap : ∀ key e, extreme.entries.get? key = some e →
      e.stamp.Fits ∧ e.map = some (.array [.int 18446744073709551615]) := by
    intro key e he
    have hmem := Members.mem_ofList (Members.mem_of_find? he)
    obtain ⟨-, rfl⟩ := Prod.mk.inj (List.mem_singleton.1 hmem)
    exact ⟨by decide, rfl⟩
  have hplain : ∀ key e, extreme.entries.get? key = some e → e.Plain := by
    intro key e he
    have hwhole : Json.IsWhole 18446744073709551615 := by decide
    refine ⟨(hmap key e he).1, fun map hmem => ?_⟩
    cases (hmap key e he).2.symm.trans hmem
    exact ⟨hwhole, trivial⟩
  have hunmarked : ∀ key e, extreme.entries.get? key = some e → e.Unmarked := by
    intro key e he map hmem
    cases (hmap key e he).2.symm.trans hmem
    exact ⟨trivial, trivial, trivial⟩
  have h := flush_load_round_trip (t := Store.new extreme.path) rfl hplain
    (hpair _ hflushed) rfl
  exact ⟨hflushed, (h.2 (by decide +kernel)).2 hunmarked⟩

/-- An entry whose map begins with the key of a text, which is a number. -/
def marked : Store :=
  { Store.new ⟨"/store.json"⟩ with
    entries := Keyed.ofList
      [("k", ⟨"", some (.object [(Json.rawKey, .int 7), ("a", .int 1)]), .checksum ""⟩)] }

/-- It is flushed to a file that does not nest too deep, and this file cannot be
loaded. -/
theorem load_marked_fails :
    (∀ key e, marked.entries.get? key = some e → e.Plain) ∧
      (marked.flush .empty).1.toBool = true ∧
      (entriesJson marked.entries).depth ≤ Json.depthLimit ∧
      ∀ loaded, (Store.new marked.path).load (marked.flush .empty).2 ≠ .ok loaded := by
  have hwhole : Json.IsWhole 7 ∧ Json.IsWhole 1 := by decide
  have hsorted : Members.Sorted [(Json.rawKey, Json.int 7), ("a", Json.int 1)] :=
    List.pairwise_pair.2 (by decide)
  have hplain : ∀ key e, marked.entries.get? key = some e → e.Plain := by
    intro key e he
    have hmem := Members.mem_ofList (Members.mem_of_find? he)
    obtain ⟨-, rfl⟩ := Prod.mk.inj (List.mem_singleton.1 hmem)
    refine ⟨trivial, fun map hmap => ?_⟩
    cases hmap
    exact ⟨hsorted, hwhole.1, hwhole.2, trivial⟩
  refine ⟨hplain, by decide +kernel, by decide +kernel, fun loaded hload => ?_⟩
  have hfails : ((Store.new marked.path).load (marked.flush .empty).2).toBool = false := by
    decide +kernel
  rw [hload] at hfails
  cases hfails

end TransformCache.Cache
