/-
Mappings from text to values, held as a list of members in the order of their keys.

Everything this library writes out is ordered by key — stored entries, engine options, JSON
objects, the loaders of a host — so the order is part of the value: two mappings with the same
look-ups are the same list, and printing needs no sort.

`Members` are the operations on a bare list, which JSON objects use directly; `Keyed` packs a
list together with the fact that it is sorted.
-/

namespace TransformCache

-- ====================================================== bare member lists

namespace Members

variable {α : Type}

/-- Keys strictly increase, so no key occurs twice. -/
def Sorted (members : List (String × α)) : Prop :=
  members.Pairwise fun a b => a.1 < b.1

/-- The value of the first member named `key`. -/
def find? (key : String) : List (String × α) → Option α
  | [] => none
  | (k, v) :: rest => if k = key then some v else find? key rest

/-- Sets `key`, in its place in the order; a member of that name is replaced. -/
def insert (key : String) (value : α) : List (String × α) → List (String × α)
  | [] => [(key, value)]
  | (k, v) :: rest =>
    if key < k then (key, value) :: (k, v) :: rest
    else if key = k then (key, value) :: rest
    else (k, v) :: insert key value rest

def erase (key : String) (members : List (String × α)) : List (String × α) :=
  members.filter fun m => m.1 ≠ key

/-- Members given in any order, the last one of a repeated key winning. -/
def ofList (members : List (String × α)) : List (String × α) :=
  members.foldl (fun sorted m => insert m.1 m.2 sorted) []

private theorem key_order {a b : String} (hlt : ¬ a < b) (hne : ¬ a = b) : b < a :=
  Decidable.byContradiction fun h =>
    hne (String.le_antisymm (String.not_lt.1 h) (String.not_lt.1 hlt))

theorem mem_insert {key : String} {value : α} {m : String × α} {members : List (String × α)}
    (h : m ∈ insert key value members) : m = (key, value) ∨ m ∈ members := by
  induction members with
  | nil => simpa [insert] using h
  | cons head rest ih =>
    obtain ⟨k, v⟩ := head
    simp only [insert] at h
    split at h
    · simpa using h
    · split at h
      · rcases List.mem_cons.1 h with h | h
        · exact .inl h
        · exact .inr (List.mem_cons_of_mem _ h)
      · rcases List.mem_cons.1 h with h | h
        · exact .inr (h ▸ List.mem_cons_self)
        · exact (ih h).imp id (List.mem_cons_of_mem _)

theorem sorted_insert {key : String} {value : α} {members : List (String × α)}
    (h : Sorted members) : Sorted (insert key value members) := by
  induction members with
  | nil => simp [insert, Sorted]
  | cons head rest ih =>
    obtain ⟨k, v⟩ := head
    obtain ⟨hhead, hrest⟩ := List.pairwise_cons.1 h
    simp only [insert]
    split
    · rename_i hlt
      refine List.pairwise_cons.2 ⟨fun m hm => ?_, h⟩
      rcases List.mem_cons.1 hm with rfl | hm
      · exact hlt
      · exact String.lt_trans hlt (hhead m hm)
    · rename_i hlt
      split
      · rename_i heq
        subst heq
        exact List.pairwise_cons.2 ⟨hhead, hrest⟩
      · rename_i hne
        refine List.pairwise_cons.2 ⟨fun m hm => ?_, ih hrest⟩
        rcases mem_insert hm with rfl | hm
        · exact key_order hlt hne
        · exact hhead m hm

theorem sorted_erase {key : String} {members : List (String × α)}
    (h : Sorted members) : Sorted (erase key members) :=
  List.Pairwise.filter _ h

theorem sorted_ofList (members : List (String × α)) : Sorted (ofList members) := by
  suffices ∀ (l acc : List (String × α)), Sorted acc →
      Sorted (l.foldl (fun sorted m => insert m.1 m.2 sorted) acc) from
    this members [] List.Pairwise.nil
  intro l
  induction l with
  | nil => exact fun _ h => h
  | cons m rest ih => exact fun acc h => ih _ (sorted_insert h)

theorem find?_insert (key other : String) (value : α) (members : List (String × α)) :
    find? other (insert key value members)
      = if key = other then some value else find? other members := by
  induction members with
  | nil => simp [insert, find?]
  | cons head rest ih =>
    obtain ⟨k, v⟩ := head
    simp only [insert]
    split
    · simp [find?]
    · split
      · rename_i heq
        subst heq
        by_cases ho : key = other <;> simp [find?, ho]
      · rename_i hne
        by_cases ho : key = other
        · subst ho
          have hk : ¬ k = key := fun e => hne e.symm
          simp [find?, hk, ih]
        · simp [find?, ho, ih]

theorem find?_erase (key other : String) (members : List (String × α)) :
    find? other (erase key members)
      = if key = other then none else find? other members := by
  induction members with
  | nil => simp [erase, find?]
  | cons head rest ih =>
    obtain ⟨k, v⟩ := head
    by_cases hk : k = key
    · have hdrop : erase key ((k, v) :: rest) = erase key rest := by simp [erase, hk]
      rw [hdrop, ih]
      subst hk
      by_cases ho : k = other <;> simp [find?, ho]
    · have hkeep : erase key ((k, v) :: rest) = (k, v) :: erase key rest := by
        simp [erase, hk]
      rw [hkeep]
      by_cases ho : key = other
      · subst ho
        simp [find?, hk, ih]
      · simp [find?, ih, ho]

end Members

-- ====================================================== sorted mappings

/-- A mapping from text to `α`, in the order of its keys. -/
structure Keyed (α : Type) where
  members : List (String × α)
  sorted : Members.Sorted members

namespace Keyed

variable {α : Type}

instance : EmptyCollection (Keyed α) := ⟨⟨[], List.Pairwise.nil⟩⟩

instance : Inhabited (Keyed α) := ⟨∅⟩

@[ext] theorem ext {a b : Keyed α} (h : a.members = b.members) : a = b := by
  cases a; cases b; simp_all

/-- The value of `key`, if it has one. -/
def get? (m : Keyed α) (key : String) : Option α := Members.find? key m.members

def insert (m : Keyed α) (key : String) (value : α) : Keyed α :=
  ⟨Members.insert key value m.members, Members.sorted_insert m.sorted⟩

def erase (m : Keyed α) (key : String) : Keyed α :=
  ⟨Members.erase key m.members, Members.sorted_erase m.sorted⟩

/-- Members given in any order, the last one of a repeated key winning. -/
def ofList (members : List (String × α)) : Keyed α :=
  ⟨Members.ofList members, Members.sorted_ofList members⟩

/-- `other`'s members written over this mapping's. -/
def overlay (m other : Keyed α) : Keyed α :=
  other.members.foldl (fun acc p => acc.insert p.1 p.2) m

def keys (m : Keyed α) : List String := m.members.map (·.1)

/-- Values, in the order of their keys. -/
def values (m : Keyed α) : List α := m.members.map (·.2)

/-- How many keys have a value. -/
def size (m : Keyed α) : Nat := m.members.length

/-- True when no key has a value. -/
def isEmpty (m : Keyed α) : Bool := m.members.isEmpty

def contains (m : Keyed α) (key : String) : Bool := (m.get? key).isSome

@[simp] theorem get?_empty (key : String) : (∅ : Keyed α).get? key = none := rfl

theorem get?_insert (m : Keyed α) (key other : String) (value : α) :
    (m.insert key value).get? other = if key = other then some value else m.get? other :=
  Members.find?_insert key other value m.members

theorem get?_erase (m : Keyed α) (key other : String) :
    (m.erase key).get? other = if key = other then none else m.get? other :=
  Members.find?_erase key other m.members

@[simp] theorem get?_insert_self (m : Keyed α) (key : String) (value : α) :
    (m.insert key value).get? key = some value := by
  simp [get?_insert]

@[simp] theorem get?_erase_self (m : Keyed α) (key : String) :
    (m.erase key).get? key = none := by
  simp [get?_erase]

end Keyed

end TransformCache
