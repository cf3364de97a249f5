/-
Fields of an object, and what its members say of them.

A field may be given once. Of the members read so far only that it was given,
and what it came to, is kept: `once` is how a member of its name is taken, and
`Once` what all members together make of it. Members of other names go by
unseen (`once_cons_ne`), so of an object with many fields each is judged alone.

What may be left out or `null` is a `Field` of the object; its value is what was
written (`once_orNull_iff`).
-/
import TransformCache.Proofs.Json.Shapes

namespace TransformCache.Json

variable {α : Type} {pick : Json → Option α} {write : α → Json} {name key : String}
  {ms : List (String × Json)} {x : Json}

-- ============================================================ at most once

/-- Takes the value of a field that was not seen yet. -/
def once (pick : Json → Option α) (seen : Option α) (x : Json) : Option (Option α) :=
  if seen.isSome then none else (pick x).map some

theorem once_of_isSome {seen : Option α} (h : seen.isSome = true) (x : Json) :
    once pick seen x = none := if_pos h

/-- The value of a field that was not seen is taken as it is picked. -/
theorem Picks.once {β : Type} {r : Reader α} {read : Reader Json} (h : Picks r read pick)
    {seen : Option α} (hseen : seen = none) (keep : Option α → β) :
    Picks (fun rest => Json.mapValue (fun v => keep (some v)) (r rest)) read
      fun x => (Json.once pick seen x).map keep := by
  have hmap := h.mapValue fun v => keep (some v)
  simpa [Json.once, hseen, Function.comp_def] using hmap

/-- From what was seen of a field the members come to what is left: there is
none of its name, or it was not seen and there is one, which passes. -/
def Once (pick : Json → Option α) (name : String) (ms : List (String × Json))
    (seen left : Option α) : Prop :=
  (ms.filter (·.1 = name) = [] ∧ left = seen) ∨
    (seen = none ∧ ∃ x v, ms.filter (·.1 = name) = [(name, x)] ∧ pick x = some v ∧ left = some v)

@[simp] theorem once_nil {seen left : Option α} : Once pick name [] seen left ↔ left = seen := by
  simp [Once]

/-- A member of another name changes nothing. -/
theorem once_cons_ne (h : key ≠ name) {seen left : Option α} :
    Once pick name ((key, x) :: ms) seen left ↔ Once pick name ms seen left := by
  simp [Once, h]

theorem once_some_iff {v : α} {left : Option α} :
    Once pick name ms (some v) left ↔ ms.filter (·.1 = name) = [] ∧ left = some v := by
  simp [Once]

/-- After a member of its name there is no other. -/
theorem once_cons_self {seen left : Option α} :
    Once pick name ((name, x) :: ms) seen left
      ↔ ∃ v, once pick seen x = some v ∧ Once pick name ms v left := by
  have hfilter : ((name, x) :: ms).filter (·.1 = name) = (name, x) :: ms.filter (·.1 = name) := by
    simp
  cases seen with
  | some v => simp [once, once_some_iff, hfilter]
  | none =>
      unfold Once once
      rw [hfilter]
      constructor
      · rintro (⟨⟨⟩, -⟩ | ⟨-, x', v, hone, hpick, hleft⟩)
        obtain ⟨rfl, hrest⟩ : x = x' ∧ ms.filter (·.1 = name) = [] := by simpa using hone
        exact ⟨some v, by simp [hpick], .inl ⟨hrest, hleft⟩⟩
      · rintro ⟨v, htake, hrest⟩
        obtain ⟨w, hpick, rfl⟩ : ∃ w, pick x = some w ∧ some w = v := by simpa using htake
        obtain ⟨hrest, hleft⟩ := once_some_iff.1 hrest
        exact .inr ⟨rfl, x, w, by simp [hrest], hpick, hleft⟩

/-- What a member makes of a field. -/
theorem once_cons {seen left : Option α} :
    Once pick name ((key, x) :: ms) seen left
      ↔ if key = name then ∃ v, once pick seen x = some v ∧ Once pick name ms v left
        else Once pick name ms seen left := by
  split
  next h => rw [h, once_cons_self]
  next h => exact once_cons_ne h

theorem once_none_iff {v : α} :
    Once pick name ms none (some v) ↔ ∃ x, ms.filter (·.1 = name) = [(name, x)] ∧ pick x = some v := by
  simp [Once]

-- ========================================================= what was written

/-- What passes is what was written. -/
def Undoes (pick : Json → Option α) (write : α → Json) : Prop :=
  ∀ x v, pick x = some v ↔ x = write v

theorem undoes_text : Undoes text? .string := by
  intro x v
  cases x with
  | string s => simp [text?]
  | _ => simp [text?]

theorem undoes_bool : Undoes bool? .bool := by
  intro x v
  cases x with
  | bool b => simp [bool?]
  | _ => simp [bool?]

theorem Undoes.map {β : Type} (h : Undoes pick write) {f : α → β} {g : β → α}
    (hfg : ∀ v w, f v = w ↔ v = g w) :
    Undoes (fun x => (pick x).map f) (fun w => write (g w)) := by
  intro x w
  simp only [Option.map_eq_some_iff, hfg, exists_eq_right]
  exact h x (g w)

theorem Undoes.allOf (h : Undoes pick write) :
    Undoes (allOf pick) fun vs => .array (vs.map write) := by
  have hitems : ∀ (xs : List Json) (vs : List α),
      xs.mapM pick = some vs ↔ xs = vs.map write := by
    intro xs
    induction xs with
    | nil => simp
    | cons x xs ih =>
        intro vs
        rw [List.mapM_cons]
        cases vs with
        | nil => simp [Option.bind_eq_some_iff]
        | cons v vs => simp [Option.bind_eq_some_iff, h x, ih]
  intro x vs
  cases x with
  | array xs => simp [Json.allOf, hitems]
  | _ => simp [Json.allOf]

/-- A value, or `null` if there is none. -/
def writeOrNull (write : α → Json) (value : Option α) : Json := (value.map write).getD .null

theorem Undoes.orNull (h : Undoes pick write) (hnull : ∀ v, write v ≠ .null) :
    Undoes (orNull pick) (writeOrNull write) := by
  intro x value
  by_cases hx : x = .null
  · subst hx
    cases value with
    | none => simp [Json.orNull, writeOrNull]
    | some v => simp [Json.orNull, writeOrNull, (hnull v).symm]
  · rw [orNull_of_ne hx]
    cases value with
    | none => simp [writeOrNull, hx]
    | some v => simp [writeOrNull, h x]

-- ================================================================== fields

/-- A field that may be left out, given once, or `null`: without a value it is
missing or `null`, otherwise one member of its name is the value. -/
def Field (write : α → Json) (name : String) (ms : List (String × Json)) (value : Option α) :
    Prop :=
  (ms.filter (·.1 = name) = [] ∧ value = none) ∨
    ms.filter (·.1 = name) = [(name, writeOrNull write value)]

/-- A field that was read. -/
theorem once_orNull_iff (h : Undoes pick write) (hnull : ∀ v, write v ≠ .null) {value : Option α} :
    (∃ left, Once (orNull pick) name ms none left ∧ left.getD none = value)
      ↔ Field write name ms value := by
  constructor
  · rintro ⟨left, ⟨hnone, rfl⟩ | ⟨-, x, v, hone, hpick, rfl⟩, rfl⟩
    · exact .inl ⟨hnone, rfl⟩
    · rw [(h.orNull hnull x v).1 hpick] at hone
      exact .inr hone
  · rintro (⟨hnone, rfl⟩ | hone)
    · exact ⟨none, .inl ⟨hnone, rfl⟩, rfl⟩
    · exact ⟨some value, .inr ⟨rfl, _, value, hone, (h.orNull hnull _ _).2 rfl, rfl⟩, rfl⟩

/-- Members can be read as a field if there is at most one of its name, which
is `null` or of its type. -/
theorem exists_field_iff :
    (∃ value, Field write name ms value)
      ↔ (ms.filter (·.1 = name)).length ≤ 1 ∧
        ∀ x, (name, x) ∈ ms → x = .null ∨ ∃ v, x = write v := by
  have hmem : ∀ x, (name, x) ∈ ms ↔ (name, x) ∈ ms.filter (·.1 = name) := fun x => by simp
  simp only [hmem, Field]
  have hname : ∀ m ∈ ms.filter (·.1 = name), m.1 = name := fun m hm => by
    simpa using (List.mem_filter.1 hm).2
  generalize ms.filter (·.1 = name) = named at hname
  match named, hname with
  | [], _ => simp
  | [(first, x)], hname =>
      obtain rfl : first = name := hname _ (List.mem_singleton.2 rfl)
      constructor
      · rintro ⟨value, ⟨⟨⟩, -⟩ | hone⟩
        cases hone
        cases value with
        | none => simp [writeOrNull]
        | some v => simp [writeOrNull]
      · rintro ⟨-, hshape⟩
        rcases hshape x (List.mem_singleton.2 rfl) with rfl | ⟨v, rfl⟩
        · exact ⟨none, .inr rfl⟩
        · exact ⟨some v, .inr rfl⟩
  | _ :: _ :: _, _ => simp

end TransformCache.Json
