/-
Sorted mappings are their look-ups.

Two mappings that answer every key alike are the same list
(`Keyed.ext_get?`), because sorted lists with the same look-ups have the
same head. Everything that is claimed of a mapping can therefore be claimed
key by key, and every fold over the members of one is pinned down by what it
does to a single key.

- `Keyed.mem_keys_iff`: the keys are those that have a value.
- `Members.ofList_sorted`: sorting what is sorted changes nothing, which is
  what reading back a written mapping rests on.
-/
import TransformCache.Keyed
import Mathlib.Data.List.Dedup

namespace TransformCache

-- ==================================================== bare member lists

namespace Members

variable {α : Type}

/-- A key below every member's is not found. -/
theorem find?_eq_none_of_lt {key : String} {members : List (String × α)}
    (h : ∀ m ∈ members, key < m.1) : find? key members = none := by
  induction members with
  | nil => rfl
  | cons head rest ih =>
      obtain ⟨k, v⟩ := head
      have hk : key < k := h (k, v) List.mem_cons_self
      have hne : ¬ k = key := fun e => String.lt_irrefl k (e ▸ hk)
      simp only [find?, if_neg hne]
      exact ih fun m hm => h m (List.mem_cons_of_mem _ hm)

theorem mem_of_find? {key : String} {value : α} {members : List (String × α)}
    (h : find? key members = some value) : (key, value) ∈ members := by
  induction members with
  | nil => cases h
  | cons head rest ih =>
      obtain ⟨k, v⟩ := head
      simp only [find?] at h
      split at h
      next hk =>
        cases h
        rw [hk]
        exact List.mem_cons_self
      next => exact List.mem_cons_of_mem _ (ih h)

theorem find?_of_mem {key : String} {value : α} {members : List (String × α)}
    (hs : Sorted members) (h : (key, value) ∈ members) :
    find? key members = some value := by
  induction members with
  | nil => cases h
  | cons head rest ih =>
      obtain ⟨hhead, hrest⟩ := List.pairwise_cons.1 hs
      rcases List.mem_cons.1 h with rfl | hm
      · simp [find?]
      · have hlt : head.1 < key := hhead _ hm
        have hne : ¬ head.1 = key := fun e => String.lt_irrefl key (e ▸ hlt)
        simp only [find?, if_neg hne]
        exact ih hrest hm

/-- Sorted lists with the same look-ups are the same. -/
theorem eq_of_find? {a b : List (String × α)} (ha : Sorted a) (hb : Sorted b)
    (h : ∀ key, find? key a = find? key b) : a = b := by
  induction a generalizing b with
  | nil =>
      cases b with
      | nil => rfl
      | cons head rest =>
          have hf := h head.1
          simp [find?] at hf
  | cons x xs ih =>
      obtain ⟨hx, hxs⟩ := List.pairwise_cons.1 ha
      cases b with
      | nil =>
          have hf := h x.1
          simp [find?] at hf
      | cons y ys =>
          obtain ⟨hy, hys⟩ := List.pairwise_cons.1 hb
          -- each head is found in the other list, so neither key is the smaller
          have hxy : (x.1, x.2) ∈ y :: ys :=
            mem_of_find? (by rw [← h x.1]; simp [find?])
          have hyx : (y.1, y.2) ∈ x :: xs :=
            mem_of_find? (by rw [h y.1]; simp [find?])
          have heq : x = y := by
            rcases List.mem_cons.1 hxy with e | hmem
            · exact e
            · rcases List.mem_cons.1 hyx with e | hmem'
              · exact e.symm
              · exact absurd (String.lt_trans (hy _ hmem) (hx _ hmem'))
                  (String.lt_irrefl _)
          subst heq
          congr 1
          refine ih hxs hys fun key => ?_
          have hk := h key
          by_cases hkey : x.1 = key
          · subst hkey
            rw [find?_eq_none_of_lt hx, find?_eq_none_of_lt hy]
          · simpa [find?, hkey] using hk

theorem insert_ne_nil (key : String) (value : α) (members : List (String × α)) :
    insert key value members ≠ [] := by
  intro hnil
  have hfound := find?_insert key key value members
  rw [hnil, if_pos rfl] at hfound
  cases hfound

/-- A key above every member's goes to the end. -/
theorem insert_eq_append {key : String} {value : α} {members : List (String × α)}
    (h : ∀ m ∈ members, m.1 < key) :
    insert key value members = members ++ [(key, value)] := by
  induction members with
  | nil => rfl
  | cons head rest ih =>
      obtain ⟨k, v⟩ := head
      have hk : k < key := h (k, v) List.mem_cons_self
      have hlt : ¬ key < k := fun e => String.lt_irrefl _ (String.lt_trans e hk)
      have hne : ¬ key = k := fun e => String.lt_irrefl k (e ▸ hk)
      rw [insert, if_neg hlt, if_neg hne,
        ih fun m hm => h m (List.mem_cons_of_mem _ hm)]
      rfl

theorem ofList_sorted {members : List (String × α)} (h : Sorted members) :
    ofList members = members := by
  suffices key : ∀ (rest done : List (String × α)), Sorted (done ++ rest) →
      rest.foldl (fun sorted m => insert m.1 m.2 sorted) done = done ++ rest by
    exact key members [] h
  intro rest
  induction rest with
  | nil => intro done _; simp
  | cons m rest ih =>
      intro done hs
      have hlast : insert m.1 m.2 done = done ++ [m] :=
        insert_eq_append fun d hd =>
          (List.pairwise_append.1 hs).2.2 d hd m List.mem_cons_self
      rw [List.foldl_cons, hlast, ih _ (by simpa using hs)]
      simp

/-- What is sorted was given. -/
theorem mem_ofList {m : String × α} {members : List (String × α)} (h : m ∈ ofList members) :
    m ∈ members := by
  suffices key : ∀ (rest done : List (String × α)),
      m ∈ rest.foldl (fun sorted m => insert m.1 m.2 sorted) done → m ∈ done ∨ m ∈ rest by
    rcases key members [] h with hnil | hmem
    · cases hnil
    · exact hmem
  intro rest
  induction rest with
  | nil => intro done h; exact .inl h
  | cons head rest ih =>
      intro done h
      rcases ih _ h with hdone | hrest
      · rcases mem_insert hdone with rfl | hdone
        · exact .inr List.mem_cons_self
        · exact .inl hdone
      · exact .inr (List.mem_cons_of_mem _ hrest)

-- ---------------------------------------------------------- every value

variable {β : Type}

/-- Every value changed, unless one of them cannot be. -/
def traverse (f : α → Option β) : List (String × α) → Option (List (String × β))
  | [] => some []
  | (key, x) :: rest => (f x).bind fun y => (traverse f rest).map ((key, y) :: ·)

/-- The keys stay. -/
theorem keys_traverse {f : α → Option β} {members : List (String × α)}
    {changed : List (String × β)} (h : traverse f members = some changed) :
    changed.map (·.1) = members.map (·.1) := by
  induction members generalizing changed with
  | nil => cases h; rfl
  | cons head rest ih =>
      obtain ⟨key, x⟩ := head
      obtain ⟨y, -, hrest⟩ := Option.bind_eq_some_iff.1 h
      obtain ⟨ys, hys, rfl⟩ := Option.map_eq_some_iff.1 hrest
      rw [List.map_cons, List.map_cons, ih hys]

/-- So do their places. -/
theorem sorted_traverse {f : α → Option β} {members : List (String × α)}
    {changed : List (String × β)} (h : traverse f members = some changed)
    (hs : Sorted members) : Sorted changed := by
  have hkeys : ∀ {γ : Type} (l : List (String × γ)),
      Sorted l ↔ (l.map (·.1)).Pairwise (· < ·) := fun l => List.pairwise_map.symm
  rw [hkeys, keys_traverse h, ← hkeys]
  exact hs

/-- Each value is what became of the value before. -/
theorem find?_traverse {f : α → Option β} {members : List (String × α)}
    {changed : List (String × β)} (h : traverse f members = some changed) (key : String) :
    find? key changed = (find? key members).bind f := by
  induction members generalizing changed with
  | nil => cases h; rfl
  | cons head rest ih =>
      obtain ⟨k, x⟩ := head
      obtain ⟨y, hy, hrest⟩ := Option.bind_eq_some_iff.1 h
      obtain ⟨ys, hys, rfl⟩ := Option.map_eq_some_iff.1 hrest
      unfold find?
      by_cases hk : k = key
      · rw [if_pos hk, if_pos hk]
        exact hy.symm
      · rw [if_neg hk, if_neg hk]
        exact ih hys

/-- Each member is changed for itself. -/
theorem traverse_eq_some_iff {f : α → Option β} {members : List (String × α)}
    {taken : List (String × β)} :
    traverse f members = some taken
      ↔ List.Forall₂ (fun m p => p.1 = m.1 ∧ f m.2 = some p.2) members taken := by
  induction members generalizing taken with
  | nil => simp [traverse, eq_comm]
  | cons m members ih =>
      rw [traverse]
      cases taken with
      | nil => simp [Option.bind_eq_some_iff]
      | cons p taken =>
          obtain ⟨key, y⟩ := p
          simp only [Option.bind_eq_some_iff, Option.map_eq_some_iff, List.forall₂_cons, ← ih]
          constructor
          · rintro ⟨y', hy, more, hmore, heq⟩
            cases heq
            exact ⟨⟨rfl, hy⟩, hmore⟩
          · rintro ⟨⟨rfl, hy⟩, hmore⟩
            exact ⟨y, hy, taken, hmore, rfl⟩

theorem traverse_eq_map_iff {f : α → Option β} {g : α → β} {members : List (String × α)} :
    traverse f members = some (members.map fun m => (m.1, g m.2))
      ↔ ∀ m ∈ members, f m.2 = some (g m.2) := by
  rw [traverse_eq_some_iff, List.forall₂_map_right_iff, List.forall₂_same]
  simp only [true_and]

/-- All values can be changed if each can. -/
theorem exists_traverse_iff {f : α → Option β} {members : List (String × α)} :
    (∃ changed, traverse f members = some changed) ↔ ∀ m ∈ members, ∃ y, f m.2 = some y := by
  induction members with
  | nil => simp [traverse]
  | cons head rest ih =>
      rw [List.forall_mem_cons, ← ih]
      simp only [traverse, Option.bind_eq_some_iff, Option.map_eq_some_iff]
      constructor
      · rintro ⟨_, y, hy, ys, hys, -⟩
        exact ⟨⟨y, hy⟩, ys, hys⟩
      · rintro ⟨⟨y, hy⟩, ys, hys⟩
        exact ⟨_, y, hy, ys, hys, rfl⟩

theorem traverse_congr {f g : α → Option β} {members : List (String × α)}
    (h : ∀ m ∈ members, f m.2 = g m.2) : traverse f members = traverse g members := by
  induction members with
  | nil => rfl
  | cons head rest ih =>
      rw [traverse, traverse, h head List.mem_cons_self,
        ih fun m hm => h m (List.mem_cons_of_mem _ hm)]

/-- None is, if one cannot be. -/
theorem traverse_eq_none {f : α → Option β} {members : List (String × α)} {m : String × α}
    (hm : m ∈ members) (h : f m.2 = none) : traverse f members = none := by
  induction members with
  | nil => cases hm
  | cons head rest ih =>
      rw [traverse]
      rcases List.mem_cons.1 hm with rfl | hm
      · rw [h]
        rfl
      · rw [ih hm]
        cases f head.2 with
        | none => rfl
        | some y => rfl

end Members

-- ====================================================== sorted mappings

namespace Keyed

variable {α : Type}

theorem ext_get? {a b : Keyed α} (h : ∀ key, a.get? key = b.get? key) : a = b :=
  Keyed.ext (Members.eq_of_find? a.sorted b.sorted h)

theorem mem_keys_iff {m : Keyed α} {key : String} :
    key ∈ m.keys ↔ (m.get? key).isSome = true := by
  constructor
  · intro h
    obtain ⟨⟨k, v⟩, hm, rfl⟩ := List.mem_map.1 h
    rw [get?, Members.find?_of_mem m.sorted hm]
    rfl
  · intro h
    obtain ⟨v, hv⟩ := Option.isSome_iff_exists.1 h
    exact List.mem_map.2 ⟨(key, v), Members.mem_of_find? hv, rfl⟩

variable {β : Type}

/-- A mapping with every value changed. -/
def map (f : α → β) (m : Keyed α) : Keyed β where
  members := m.members.map fun p => (p.1, f p.2)
  sorted := by
    rw [Members.Sorted, List.pairwise_map]
    exact m.sorted

theorem size_map (f : α → β) (m : Keyed α) : (m.map f).size = m.size := List.length_map ..

theorem get?_map (f : α → β) (m : Keyed α) (key : String) :
    (m.map f).get? key = (m.get? key).map f := by
  suffices hfind : ∀ members : List (String × α),
      Members.find? key (members.map fun p => (p.1, f p.2))
        = (Members.find? key members).map f from hfind m.members
  intro members
  induction members with
  | nil => rfl
  | cons head rest ih =>
      rw [List.map_cons, Members.find?, Members.find?]
      by_cases hk : head.1 = key
      · rw [if_pos hk, if_pos hk]
        rfl
      · rw [if_neg hk, if_neg hk]
        exact ih

theorem map_id (m : Keyed α) : m.map id = m := Keyed.ext (List.map_id' m.members)

/-- What holds of every value that is found holds of every member. -/
theorem forall_members_iff {P : α → Prop} {m : Keyed α} :
    (∀ p ∈ m.members, P p.2) ↔ ∀ key x, m.get? key = some x → P x :=
  ⟨fun h key x hx => h (key, x) (Members.mem_of_find? hx),
    fun h p hp => h p.1 p.2 (Members.find?_of_mem m.sorted hp)⟩

/-- Inserting members one after the other is sorting them. -/
theorem foldl_insert (members : List (String × α)) :
    members.foldl (fun kept m => kept.insert m.1 m.2) (∅ : Keyed α) = ofList members := by
  suffices key : ∀ (rest : List (String × α)) (kept : Keyed α),
      (rest.foldl (fun kept m => kept.insert m.1 m.2) kept).members
        = rest.foldl (fun sorted m => Members.insert m.1 m.2 sorted) kept.members from
    Keyed.ext (key members ∅)
  intro rest
  induction rest with
  | nil => intro kept; rfl
  | cons m rest ih => intro kept; exact ih (kept.insert m.1 m.2)

/-- The last member of a name, if there is one. -/
def last? (key : String) (members : List (String × α)) : Option α :=
  (members.filter (·.1 = key)).getLast?.map (·.2)

theorem last?_cons (key : String) (m : String × α) (rest : List (String × α)) :
    last? key (m :: rest) = (last? key rest <|> if m.1 = key then some m.2 else none) := by
  unfold last?
  by_cases hk : m.1 = key
  · simp only [List.filter_cons, hk, decide_true, if_true]
    rw [List.getLast?_cons]
    cases (rest.filter (·.1 = key)).getLast? with
    | none => rfl
    | some found => rfl
  · simp [hk]

/-- Of members that are inserted, the last of a name is found. -/
theorem get?_insertAll (members : List (String × α)) (key : String) :
    ∀ m : Keyed α, (members.foldl (fun kept p => kept.insert p.1 p.2) m).get? key
      = (last? key members <|> m.get? key) := by
  induction members with
  | nil => exact fun m => rfl
  | cons head rest ih =>
      intro m
      rw [List.foldl_cons, ih, get?_insert, last?_cons]
      cases last? key rest with
      | some found => rfl
      | none => by_cases hk : head.1 = key <;> simp [hk]

/-- The last member of a name is what became of the last one before. -/
theorem last?_traverse {f : α → Option β} {members : List (String × α)}
    {changed : List (String × β)} (h : Members.traverse f members = some changed) (key : String) :
    last? key changed = (last? key members).bind f := by
  induction members generalizing changed with
  | nil => cases h; rfl
  | cons head rest ih =>
      obtain ⟨k, x⟩ := head
      obtain ⟨y, hy, hrest⟩ := Option.bind_eq_some_iff.1 h
      obtain ⟨ys, hys, rfl⟩ := Option.map_eq_some_iff.1 hrest
      rw [last?_cons, last?_cons, ih hys]
      cases hlast : last? key rest with
      | none =>
          by_cases hk : k = key
          · simp [hk, hy]
          · simp [hk]
      | some found =>
          -- the one that counts was changed as well
          have hfound : (key, found) ∈ rest := by
            obtain ⟨m, hm, rfl⟩ := Option.map_eq_some_iff.1 hlast
            obtain ⟨hmem, hkey⟩ := List.mem_filter.1 (List.mem_of_getLast? hm)
            rwa [← of_decide_eq_true hkey]
          obtain ⟨z, hz⟩ := Members.exists_traverse_iff.1 ⟨ys, hys⟩ _ hfound
          simp [hz]

theorem get?_ofList (members : List (String × α)) (key : String) :
    (ofList members).get? key = last? key members := by
  rw [← foldl_insert, get?_insertAll]
  cases last? key members with
  | none => rfl
  | some found => rfl

/-- A mapping has one member of a name at most, so its last one is found. -/
theorem last?_members (m : Keyed α) (key : String) : last? key m.members = m.get? key := by
  have hself : ofList m.members = m := Keyed.ext (Members.ofList_sorted m.sorted)
  rw [← get?_ofList, hself]

/-- What is written over a mapping is found before what was there. -/
theorem get?_overlay (m other : Keyed α) (key : String) :
    (m.overlay other).get? key = (other.get? key <|> m.get? key) := by
  rw [overlay, get?_insertAll, last?_members]

/-- The last member of a name is found among those of some names, if it is one of
them. -/
theorem last?_filter (p : String → Bool) (key : String) (members : List (String × α)) :
    last? key (members.filter fun m => p m.1) = if p key then last? key members else none := by
  induction members with
  | nil => simp [last?]
  | cons head rest ih =>
      rw [last?_cons, List.filter_cons]
      by_cases hk : head.1 = key
      · subst hk
        cases hp : p head.1 with
        | false => simp [ih, hp]
        | true => simp [last?_cons, ih, hp]
      · cases p head.1 with
        | false => simp [ih, hk]
        | true => simp [last?_cons, ih, hk]

theorem isSome_last? {key : String} {members : List (String × α)} :
    (last? key members).isSome = true ↔ key ∈ members.map (·.1) := by
  induction members with
  | nil => simp [last?]
  | cons head rest ih =>
      rw [last?_cons, List.map_cons, List.mem_cons, ← ih]
      cases last? key rest with
      | some found => simp
      | none =>
          by_cases hk : head.1 = key
          · simp [hk]
          · simp [hk, Ne.symm hk]

theorem nodup_keys (m : Keyed α) : m.keys.Nodup :=
  List.Pairwise.map _ (fun _ _ hlt heq => String.lt_irrefl _ (heq ▸ hlt)) m.sorted

/-- There are as many keys as there are different names. -/
theorem size_ofList (members : List (String × α)) :
    (ofList members).size = (members.map (·.1)).dedup.length := by
  have hkeys : (ofList members).keys.Perm (members.map (·.1)).dedup := by
    refine (List.perm_ext_iff_of_nodup (nodup_keys _) (List.nodup_dedup _)).2 fun key => ?_
    rw [mem_keys_iff, get?_ofList, isSome_last?, List.mem_dedup]
  rw [← hkeys.length_eq]
  exact (List.length_map ..).symm

theorem members_ofList {members : List (String × α)} (h : Members.Sorted members) :
    (ofList members).members = members := Members.ofList_sorted h

/-- All values become what `g` makes of them if each does. -/
theorem traverse_eq_some_map_iff {f : α → Option β} {g : α → β} {m : Keyed α} :
    (Members.traverse f m.members).map ofList = some (m.map g)
      ↔ ∀ p ∈ m.members, f p.2 = some (g p.2) := by
  rw [← Members.traverse_eq_map_iff, Option.map_eq_some_iff]
  constructor
  · rintro ⟨changed, htraverse, hchanged⟩
    have hmembers := members_ofList (Members.sorted_traverse htraverse m.sorted)
    rw [htraverse, ← hmembers, hchanged]
    rfl
  · exact fun htraverse => ⟨_, htraverse, Keyed.ext (members_ofList (m.map g).sorted)⟩

end Keyed

end TransformCache
