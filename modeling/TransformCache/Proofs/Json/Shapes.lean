/-
Values of some shape, picked from all values.

A reader that expects a text, a truth value, a list of such or perhaps `null`
picks from the reader of values as they are written: it takes what that reader
takes, if the value has the shape, wherever in a document it is asked. How deep
a value nests counts for both alike, so the equivalences hold for every number
of containers that may be open.
-/
import TransformCache.Proofs.Json.Members

namespace TransformCache.Json

variable {α β : Type}

-- ================================================================= shapes

/-- What is no container is picked from the values that are none. -/
theorem picks_scalarOf {pick : Json → Option α} (hlist : ∀ xs, pick (.array xs) = none)
    (hobject : ∀ ms, pick (.object ms) = none) (expected : String) (depth : Nat) :
    Picks (scalarOf expected pick) (tree depth) pick := by
  intro bytes
  have hopening := opening (skipBlanks bytes)
  generalize hrest : skipBlanks bytes = rest at hopening
  cases hopening with
  | list after =>
      rw [scalarOf_container (.inl rfl) hrest, toOption_tree_list hrest]
      split
      · rfl
      · cases (items (tree (depth - 1)) (after.length + 1) true after).toOption with
        | none => rfl
        | some found => simp [hlist]
  | object after =>
      rw [scalarOf_container (.inr rfl) hrest, toOption_tree_object hrest]
      split
      · rfl
      · cases (members (collect (tree (depth - 1))) (after.length + 1) true [] after).toOption with
        | none => rfl
        | some found => simp [hobject]
  | bare hbareList hbareObject =>
      rw [← hrest] at hbareList hbareObject
      rw [scalarOf_bare hbareList hbareObject, tree_bare hbareList hbareObject]

theorem picks_stringOf (expected : String) (depth : Nat) :
    Picks (stringOf expected) (tree depth) text? :=
  picks_scalarOf (fun _ => rfl) (fun _ => rfl) expected depth

theorem picks_boolean (depth : Nat) : Picks boolean (tree depth) bool? :=
  picks_scalarOf (fun _ => rfl) (fun _ => rfl) "a boolean" depth

/-- The items of a list that all pass. -/
def allOf (pick : Json → Option α) : Json → Option (List α)
  | .array xs => xs.mapM pick
  | _ => none

/-- A list is picked item by item. -/
theorem picks_listOf {item : Reader α} {pick : Json → Option α}
    (h : ∀ depth, Picks item (tree depth) pick) (depth : Nat) :
    Picks (listOf depth item) (tree depth) (allOf pick) := by
  intro bytes
  have hopening := opening (skipBlanks bytes)
  generalize hrest : skipBlanks bytes = rest at hopening
  cases hopening with
  | list after =>
      rw [toOption_tree_list hrest]
      simp only [listOf, hrest]
      split
      · rfl
      · rw [picks_items (h (depth - 1)) _ true after]
        cases (items (tree (depth - 1)) (after.length + 1) true after).toOption with
        | none => rfl
        | some found => rfl
  | object after =>
      rw [toOption_tree_object hrest]
      simp only [listOf, hrest]
      split
      · rfl
      · cases (members (collect (tree (depth - 1))) (after.length + 1) true [] after).toOption with
        | none => rfl
        | some found => rfl
  | bare hlist hobject =>
      have hnone : (listOf depth item bytes).toOption = none := by
        unfold listOf
        simp only
        split
        next after hafter => exact absurd (hrest ▸ hafter) (hlist after)
        next after hafter => exact absurd (hrest ▸ hafter) (hobject after)
        next => exact scalarOf_nothing ..
      rw [← hrest] at hlist hobject
      rw [hnone, tree_bare hlist hobject]
      cases hscalar : (scalar (skipBlanks bytes)).toOption with
      | none => rfl
      | some found =>
          obtain ⟨x, after⟩ := found
          -- no list comes of a scalar
          have hdepth := (answers_scalar _ _ _ (toOption_eq_some.1 hscalar)).depth
          cases x with
          | array xs => simp [Json.depth] at hdepth
          | _ => rfl

-- ------------------------------------------------------------ or null

theorem skipBlanks_skipBlanks (bytes : Bytes) : skipBlanks (skipBlanks bytes) = skipBlanks bytes := by
  induction bytes with
  | nil => rfl
  | cons b rest ih =>
      by_cases hb : isBlank b = true
      · have hstep : skipBlanks (b :: rest) = skipBlanks rest := by
          rw [skipBlanks, List.dropWhile_cons, if_pos hb]
          rfl
        rw [hstep, ih]
      · rw [skipBlanks_cons (Bool.of_not_eq_true hb), skipBlanks_cons (Bool.of_not_eq_true hb)]

theorem tree_skipBlanks (depth : Nat) (bytes : Bytes) :
    tree depth (skipBlanks bytes) = tree depth bytes := by
  cases depth with
  | zero => rw [tree, tree, skipBlanks_skipBlanks]
  | succ depth => rw [tree, tree, skipBlanks_skipBlanks]

theorem toOption_word (x : α) (y : β) (expected : Bytes) :
    ∀ rest, (word x expected rest).toOption
      = (word y expected rest).toOption.map fun found => (x, found.2) := by
  induction expected with
  | nil => exact fun rest => rfl
  | cons e expected ih =>
      intro rest
      cases rest with
      | nil => rfl
      | cons b rest =>
          rw [word, word]
          split
          · exact ih rest
          · rfl

/-- Only the word for it is `null`. -/
theorem answers_scalar_ne_null {rest : Bytes} (h : ∀ after, rest ≠ 0x6E :: after) :
    Answers (· ≠ .null) (scalar rest) := by
  have hnumber : ∀ negative rest, Answers (· ≠ .null) (numberBody negative rest) :=
    fun negative rest => (answers_numberBody negative rest).mono fun x hx hnull => by
      rw [hnull] at hx
      exact hx
  unfold scalar
  split
  · exact answers_error _
  next b after =>
    split
    · exact absurd rfl (h after)
    · exact answers_word (by simp) _ _
    · exact answers_word (by simp) _ _
    · exact answers_mapValue (P := fun _ => True) (fun _ _ _ => trivial) fun s _ => by simp
    · exact hnumber _ _
    · split
      · exact hnumber _ _
      · exact answers_error _

theorem answers_tree_ne_null {bytes : Bytes} (h : ∀ after, skipBlanks bytes ≠ 0x6E :: after)
    (depth : Nat) : Answers (· ≠ .null) (tree depth bytes) := by
  intro x rest hx
  have hfound := toOption_eq_some.2 hx
  have hopening := opening (skipBlanks bytes)
  generalize hbytes : skipBlanks bytes = source at hopening
  cases hopening with
  | list after =>
      rw [toOption_tree_list hbytes] at hfound
      split at hfound
      · cases hfound
      · obtain ⟨found, -, heq⟩ := Option.map_eq_some_iff.1 hfound
        cases heq
        simp
  | object after =>
      rw [toOption_tree_object hbytes] at hfound
      split at hfound
      · cases hfound
      · obtain ⟨found, -, heq⟩ := Option.map_eq_some_iff.1 hfound
        cases heq
        simp
  | bare hlist hobject =>
      rw [← hbytes] at hlist hobject
      rw [tree_bare hlist hobject] at hx
      exact answers_scalar_ne_null h x rest hx

/-- A value that passes, or `null` for none. -/
def orNull (pick : Json → Option α) : Json → Option (Option α)
  | .null => some none
  | x => (pick x).map some

theorem orNull_of_ne {pick : Json → Option α} {x : Json} (h : x ≠ .null) :
    orNull pick x = (pick x).map some := by
  cases x with
  | null => exact absurd rfl h
  | _ => rfl

theorem picks_optional {r : Reader α} {pick : Json → Option α} {depth : Nat}
    (h : Picks r (tree depth) pick) : Picks (optional r) (tree depth) (orNull pick) := by
  intro bytes
  by_cases hword : ∃ after, skipBlanks bytes = 0x6E :: after
  · obtain ⟨after, hafter⟩ := hword
    have htree : tree depth bytes = word .null [0x75, 0x6C, 0x6C] after := by
      rw [tree_bare (by simp [hafter]) (by simp [hafter]), hafter]
      rfl
    simp only [optional, hafter]
    rw [htree, toOption_word none Json.null]
    cases hnull : (word Json.null [0x75, 0x6C, 0x6C] after).toOption with
    | none => rfl
    | some found =>
        have hx := answers_word (P := (· = Json.null)) rfl _ _ _ _ (toOption_eq_some.1 hnull)
        simp [hx, orNull]
  · have hnot : ∀ after, skipBlanks bytes ≠ 0x6E :: after := fun after hafter =>
      hword ⟨after, hafter⟩
    have hoptional : optional r bytes = mapValue some (r (skipBlanks bytes)) := by
      unfold optional
      split
      next after hafter => exact absurd hafter (hnot after)
      next => rfl
    rw [hoptional, toOption_mapValue, h, tree_skipBlanks]
    cases hfound : (tree depth bytes).toOption with
    | none => rfl
    | some found =>
        have hne := answers_tree_ne_null hnot depth _ _ (toOption_eq_some.1 hfound)
        simp only [Option.bind_some, orNull_of_ne hne]
        cases pick found.1 with
        | none => rfl
        | some x => rfl

-- ------------------------------------------------------ objects of a shape

/-- A member that passes goes in front of those that did. -/
def takeMember (pick : α → Option β) (taken : List (String × β)) (key : String) (x : α) :
    Option (List (String × β)) :=
  (pick x).map fun y => (key, y) :: taken

theorem takeAll_takeMember (pick : α → Option β) (ms : List (String × α)) :
    ∀ taken, takeAll (takeMember pick) taken ms
      = (Members.traverse pick ms).map fun more => more.reverse ++ taken := by
  induction ms with
  | nil => exact fun taken => rfl
  | cons m ms ih =>
      intro taken
      rw [takeAll_cons, Members.traverse, takeMember]
      cases pick m.2 with
      | none => rfl
      | some y =>
          simp only [Option.map_some, Option.bind_some, ih]
          cases Members.traverse pick ms with
          | none => rfl
          | some more => simp

theorem guided_collect {r : Reader β} {read : Reader α} {pick : α → Option β}
    (h : Picks r read pick) : Guided (collect r) read (takeMember pick) where
  refuse taken key x hrefuse := by simp [collect] at hrefuse
  member taken key _ := h.mapValue fun y => (key, y) :: taken

/-- An object is picked member by member. -/
theorem picks_memberList {r : Reader β} {read : Reader α} {pick : α → Option β}
    (h : Picks r read pick) (depth : Nat) :
    Picks (memberList depth r) (memberList depth read) (Members.traverse pick) := by
  have hall : (fun ms => (takeAll (takeMember pick) [] ms).bind fun taken =>
      (Except.ok taken.reverse : Except Fault (List (String × β))).toOption)
        = Members.traverse pick := by
    funext ms
    rw [takeAll_takeMember]
    cases Members.traverse pick ms with
    | none => rfl
    | some more => simp [Except.toOption]
  exact hall ▸ (guided_collect h).picks "a map" depth [] fun taken => .ok taken.reverse

/-- A value that is an object, as it is. -/
def object? : Json → Option Json
  | .object ms => some (.object ms)
  | _ => none

/-- What is read as members is read as the object that they make. -/
theorem picks_objects (depth : Nat) :
    Picks (fun bytes => mapValue .object (memberList depth (tree (depth - 1)) bytes))
      (tree depth) object? := by
  intro bytes
  refine Option.ext fun found => ?_
  obtain ⟨x, rest⟩ := found
  rw [toOption_mapValue]
  simp only [Option.map_eq_some_iff, Option.bind_eq_some_iff, toOption_eq_some]
  constructor
  · rintro ⟨⟨ms, rest⟩, hms, heq⟩
    cases heq
    exact ⟨_, tree_eq_object_iff.2 hms, _, rfl, rfl⟩
  · rintro ⟨⟨y, rest⟩, htree, z, hobject, heq⟩
    cases heq
    cases y with
    | object ms =>
        cases hobject
        exact ⟨_, tree_eq_object_iff.1 htree, rfl⟩
    | _ => cases hobject

-- ========================================================= written objects

theorem memberList_append {pad : Bytes} (h : ∀ b ∈ pad, isBlank b = true) (depth : Nat)
    (read : Reader α) (rest : Bytes) :
    memberList depth read (pad ++ rest) = memberList depth read rest := by
  simp only [memberList, objectOf, skipBlanks_append h]

section Written

variable {read : Reader α} {reread : Json → Option α}
  (hblank : ∀ pad : Bytes, (∀ b ∈ pad, isBlank b = true) → ∀ rest, read (pad ++ rest) = read rest)

include hblank in
theorem feeds_collect (L : Layout) (level : Nat) (ms : List (String × Json)) :
    (∀ m ∈ ms, Reads read (text L level m.2) (reread m.2)) →
    ∀ state, Feeds (collect read) L.gap state (memberTexts L level ms)
      ((Members.traverse reread ms).map fun found => found.reverse ++ state) := by
  induction ms with
  | nil => exact fun _ state => .nil state
  | cons m ms ih =>
      intro hread state
      obtain ⟨key, x⟩ := m
      have hx : Reads ((collect read).member state key) (L.gap ++ text L level x)
          ((reread x).map fun y => (key, y) :: state) := by
        intro rest hrest
        show (mapValue _ (read (L.gap ++ text L level x ++ rest))).toOption = _
        rw [List.append_assoc, hblank _ L.blank_gap]
        exact (hread (key, x) List.mem_cons_self).mapValue _ rest hrest
      rw [memberTexts, Members.traverse]
      cases hreread : reread x with
      | none =>
          rw [hreread] at hx
          exact .refused rfl hx
      | some y =>
          rw [hreread] at hx
          have hrest := ih (fun m hm => hread m (List.mem_cons_of_mem _ hm)) ((key, y) :: state)
          refine .cons rfl hx ?_
          cases hall : Members.traverse reread ms with
          | none =>
              rw [hall] at hrest
              exact hrest
          | some found =>
              rw [hall] at hrest
              simpa using hrest

include hblank in
/-- A written object is read as the members it was written with, in their
order, if each value is read. -/
theorem reads_memberList (L : Layout) (level depth : Nat) (ms : List (String × Json))
    (hread : ∀ m ∈ ms, Reads read (text L (level + 1) m.2) (reread m.2)) :
    Reads (memberList (depth + 1) read) (text L level (.object ms)) (Members.traverse reread ms) := by
  intro rest _
  cases ms with
  | nil =>
      have hclose : members (collect read) ((0x7D :: rest).length + 1) true []
          ([] ++ 0x7D :: rest) = .ok ([], rest) :=
        members_close (fun _ h => (List.not_mem_nil h).elim) true [] _ rest
      rw [List.nil_append] at hclose
      show (memberList (depth + 1) read (0x7B :: 0x7D :: rest)).toOption = _
      rw [memberList_opened (skipBlanks_cons rfl _), if_neg (Nat.succ_ne_zero depth), hclose]
      rfl
  | cons head ms =>
      have hfeeds := feeds_collect hblank L (level + 1) (head :: ms) hread []
      rw [memberTexts] at hfeeds
      have hmembers := members_nonempty (L.blank_line (level + 1)) (L.blank_line level) hfeeds rest
      rw [text, List.cons_append, memberList_opened (skipBlanks_cons rfl _),
        if_neg (Nat.succ_ne_zero depth), hmembers]
      cases Members.traverse reread (head :: ms) with
      | none => rfl
      | some found => simp

end Written

/-- Plain members come back, in whatever order and however often. -/
theorem traverse_reread {ms : List (String × Json)} {depth : Nat} (hplain : PlainMembers ms)
    (hdepth : depthMembers ms ≤ depth) : Members.traverse (reread depth) ms = some ms := by
  rw [Members.traverse_eq_some_iff, List.forall₂_same]
  refine fun m hm => ⟨rfl, ?_⟩
  rw [reread_of_plain depth m.2 (plainMembers_iff.1 hplain m hm),
    if_pos ((depthMembers_le_iff ms).1 hdepth m hm)]

/-- A written object has the members that it was written with, if their values
come back. -/
theorem textMembers_text (L : Layout) {ms : List (String × Json)} (hplain : PlainMembers ms)
    (hdepth : depthMembers ms < depthLimit) : textMembers (text L 0 (.object ms)) = .ok ms := by
  have hread := document_of_reads (reads_memberList
    (fun pad hpad => tree_append hpad (depthLimit - 1)) L 0 (depthLimit - 1) ms
    fun m _ => reads_text L 1 (depthLimit - 1) m.2)
  rw [traverse_reread hplain (Nat.le_sub_one_of_lt hdepth)] at hread
  exact toOption_eq_some.1 hread

/-- All lists of members are those of a text, if their values come back. -/
theorem textMembers_of_plain {ms : List (String × Json)} (hplain : PlainMembers ms)
    (hdepth : depthMembers ms < depthLimit) :
    textMembers (Utf8.encode (Json.object ms).compact) = .ok ms := by
  rw [encode_compact]
  exact textMembers_text .compact hplain hdepth

end TransformCache.Json
