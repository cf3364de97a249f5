/-
What a file of entries can hold, and that it comes back.

An entry that was read from a file is `Legible`: its stamp has 64 bits, and its
map is one that can be read. With whole numbers in its map it is plain, and it
is `Lasting` if its map is no `null`, does not nest too deep and holds no object
that stands for a text: those are the plain entries that are written and read
without being changed (`parseEntries_eq_ok_iff_lasting`). So a file that was
read, and to which lasting entries were added, is read as exactly the entries
that were written if all of them are lasting, and its bytes are written again.
-/
import TransformCache.Proofs.Cache.StoreFile
import TransformCache.Proofs.Json.Bounds

namespace TransformCache.Cache

open Json (Answers answers_mapValue)

-- ============================================================ entries read

/-- An entry as it can be read from a file. -/
structure Entry.Legible (e : Entry) : Prop where
  fits : e.stamp.Fits
  map : ∀ map ∈ e.map, Json.Tidy map

/-- An entry that comes back as it is. -/
structure Entry.Lasting (e : Entry) : Prop where
  plain : e.Plain
  map_ne_null : ∀ map ∈ e.map, map ≠ .null
  depth : e.mapNesting ≤ mapDepth
  unmarked : e.Unmarked

/-- An entry without a map lasts. -/
theorem Entry.lasting_of_map_eq_none {e : Entry} (hfits : e.stamp.Fits) (h : e.map = none) :
    e.Lasting where
  plain := ⟨hfits, fun map hmap => by rw [h] at hmap; cases hmap⟩
  map_ne_null map hmap := by
    rw [h] at hmap
    cases hmap
  depth := by
    rw [Entry.mapNesting, h]
    exact Nat.zero_le _
  unmarked := Entry.unmarked_of_map_eq_none h

theorem Entry.Legible.plain {e : Entry} (h : e.Legible) (hwhole : ∀ map ∈ e.map, map.Integral) :
    e.Plain :=
  ⟨h.fits, fun map hmap => (h.map map hmap).plain (hwhole map hmap)⟩

theorem fits_ofMember {name : String} {value : Json} {stamp : Stamp}
    (h : Stamp.ofMember name value = .ok stamp) : stamp.Fits := by
  unfold Stamp.ofMember at h
  split at h
  · split at h
    · split at h
      next hfits =>
        cases h
        exact hfits
      next => cases h
    · cases h
  · split at h
    · cases h
      trivial
    · cases h

/-- A map that was given is one that can be read. -/
def EntryReading.MapLegible (seen : EntryReading) : Prop :=
  ∀ map, seen.map = some (some map) → Json.Tidy map

/-- What is read, or `null` for none. -/
theorem answers_optional {α : Type} {P : α → Prop} {read : Json.Reader α}
    (h : ∀ bytes, Answers P (read bytes)) (bytes : Bytes) :
    Answers (fun value : Option α => ∀ x ∈ value, P x) (Json.optional read bytes) := by
  unfold Json.optional
  split
  · exact Json.answers_word (fun x hx => by cases hx) _ _
  · exact answers_mapValue (h _) fun x hx y hy => by
      cases hy
      exact hx

theorem answers_entryMember (depth : Nat) (seen : EntryReading) (key : String) (bytes : Bytes)
    (h : seen.MapLegible) :
    Answers EntryReading.MapLegible ((entryMembers depth).member seen key bytes) := by
  unfold entryMembers
  simp only
  split
  · exact answers_mapValue (P := fun _ => True) (fun _ _ _ => trivial) fun code _ => h
  · split
    · exact answers_mapValue (answers_optional (Json.answers_value depth) bytes)
        fun given hgiven map hmap => hgiven map (Option.some.inj hmap)
    · refine answers_mapValue (P := fun _ => True) (fun _ _ _ => trivial) fun x _ => ?_
      split
      · exact h
      · exact h

/-- An entry that is read is legible. -/
theorem answers_readEntry (bytes : Bytes) :
    Answers Entry.Legible (readEntry (Json.depthLimit - 1) bytes) := by
  refine Json.answers_objectOf (I := EntryReading.MapLegible)
    (fun map hmap => by cases hmap) (answers_entryMember mapDepth) ?_ _ _ bytes
  intro seen e hseen hfinish
  unfold EntryReading.finish at hfinish
  split at hfinish
  · cases hfinish
  · split at hfinish
    · cases hfinish
    · obtain ⟨stamp, hstamp, rfl⟩ := map_eq_ok.1 hfinish
      refine ⟨fits_ofMember hstamp, fun map hmap => hseen map ?_⟩
      cases hm : seen.map with
      | none =>
          rw [hm] at hmap
          cases hmap
      | some given =>
          rw [hm] at hmap
          exact congrArg some hmap

/-- All entries of a file that is read are legible. -/
theorem legible_of_parseEntries {file : Bytes} {entries : Keyed Entry}
    (h : parseEntries file = .ok entries) {key : String} {e : Entry}
    (he : entries.get? key = some e) : e.Legible := by
  have hall : ∀ key e, entries.get? key = some e → e.Legible := by
    refine Json.of_document (P := fun entries : Keyed Entry =>
      ∀ key e, entries.get? key = some e → e.Legible) ?_ h
    have hempty : ∀ key e, (∅ : Keyed Entry).get? key = some e → e.Legible :=
      fun _ _ he => by cases he
    refine Json.answers_objectOf hempty ?_ (fun state x hstate hx => by cases hx; exact hstate)
      "a map" Json.depthLimit
    intro entries name bytes hentries
    refine answers_mapValue (answers_readEntry bytes) fun entry hentry key e he => ?_
    rw [Keyed.get?_insert] at he
    split at he
    · cases he
      exact hentry
    · exact hentries key e he
  exact hall key e he

-- ========================================================= entries that last

/-- A plain entry is meant as it is if its map is no `null` and no object in it
stands for a text. -/
theorem Entry.settled?_eq_self_iff {e : Entry} (h : e.Plain) :
    e.settled? = some e ↔ (∀ map ∈ e.map, map ≠ .null) ∧ e.Unmarked := by
  have hordered : (e.map.getD .null).Every Json.Ordered :=
    ((Json.plain_iff _).1 h.map_getD).2.2
  obtain ⟨code, map, stamp⟩ := e
  unfold Entry.settled? Entry.Unmarked
  cases map with
  | none => simp [Json.orNull]
  | some map =>
      simp only [Option.getD_some, Option.mem_def, Option.some.injEq, forall_eq'] at hordered ⊢
      rw [← Json.settle_eq_ok_iff hordered]
      cases map with
      | null => simp [Json.orNull]
      | _ => simp [Json.orNull, Json.settled?, toOption_eq_some]

/-- Of plain entries those are read as they were written that last. -/
theorem parseEntries_eq_ok_iff_lasting {entries : Keyed Entry}
    (h : ∀ key e, entries.get? key = some e → e.Plain) :
    parseEntries (entriesFile entries) = .ok entries
      ↔ ∀ key e, entries.get? key = some e → e.Lasting := by
  simp only [← Keyed.forall_members_iff] at h ⊢
  have hself := Keyed.traverse_eq_some_map_iff (f := Entry.settled?) (g := id) (m := entries)
  rw [Keyed.map_id] at hself
  rw [← toOption_eq_some, parseEntries_of_plain h]
  by_cases hdepth : (entriesJson entries).depth ≤ Json.depthLimit
  · rw [if_pos hdepth, hself]
    have hmaps := (depth_entriesJson_le_iff entries).1 hdepth
    refine forall₂_congr fun m hm => ?_
    rw [id, Entry.settled?_eq_self_iff (h m hm)]
    exact ⟨fun ⟨hnull, hunmarked⟩ => ⟨h m hm, hnull, hmaps m hm, hunmarked⟩,
      fun hlasting => ⟨hlasting.map_ne_null, hlasting.unmarked⟩⟩
  · rw [if_neg hdepth]
    exact ⟨fun hnone => (Option.some_ne_none _ hnone.symm).elim, fun hlasting =>
      (hdepth ((depth_entriesJson_le_iff entries).2 fun m hm => (hlasting m hm).depth)).elim⟩

/-- Lasting entries are read as they were written. -/
theorem parseEntries_of_lasting {entries : Keyed Entry}
    (h : ∀ key e, entries.get? key = some e → e.Lasting) :
    parseEntries (entriesFile entries) = .ok entries :=
  (parseEntries_eq_ok_iff_lasting fun key e he => (h key e he).plain).2 h

end TransformCache.Cache
