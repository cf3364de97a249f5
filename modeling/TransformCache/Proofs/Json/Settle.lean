/-
What is meant by a value that was read as it is written.

# Objects that stand for texts

An object whose first key is `rawKey` is not what it looks like: it means the
value that is written in a text. The reader of values that looks at an object
when it begins, and the one that looks at the whole when it is read, mean the
same by it (`picks_value`), though they may tell a fault at another place.

# Values in which there is none

In an `Unmarked` value no object begins with that key, and then all that
becomes of it is that the members of its objects are sorted
(`settle_of_unmarked`). Those are the only plain values that are meant as they
are: no object that stands for a text is the value of the text
(`settle_eq_ok_iff`).
-/
import TransformCache.Proofs.Json.Shapes

namespace TransformCache.Json

variable {α β σ : Type}

-- ======================================================= values and members

/-- What is meant by a value, if it means any. -/
def settled? (x : Json) : Option Json := (settle x).toOption

theorem toOption_settleItems (xs : List Json) :
    (settleItems xs).toOption = xs.mapM settled? := by
  induction xs with
  | nil => rfl
  | cons x xs ih =>
      rw [settleItems, List.mapM_cons, ← ih, settled?]
      cases settle x with
      | error fault => rfl
      | ok y =>
          cases settleItems xs with
          | error fault => rfl
          | ok ys => rfl

theorem toOption_settleMembers (ms : List (String × Json)) :
    (settleMembers ms).toOption = Members.traverse settled? ms := by
  induction ms with
  | nil => rfl
  | cons m ms ih =>
      obtain ⟨key, x⟩ := m
      rw [settleMembers, Members.traverse, ← ih, settled?]
      cases settle x with
      | error fault => rfl
      | ok y =>
          cases settleMembers ms with
          | error fault => rfl
          | ok ys => rfl

theorem settled?_array (xs : List Json) :
    settled? (.array xs) = (xs.mapM settled?).map .array := by
  rw [settled?, settle, ← toOption_settleItems]
  cases settleItems xs with
  | error fault => rfl
  | ok ys => rfl

/-- What is meant by an object that stands for no text. -/
theorem settled?_object {ms : List (String × Json)} (h : raw? ms = none) :
    settled? (.object ms)
      = (Members.traverse settled? ms).map fun ms => .object (Members.ofList ms) := by
  rw [settled?, settle, h, ← toOption_settleMembers]
  cases settleMembers ms with
  | error fault => rfl
  | ok ys => rfl

/-- An object stands for a text if it has one member, with the text as a string. -/
theorem settled?_raw {ms : List (String × Json)} {x : Json} (h : raw? ms = some x) :
    settled? (.object ms) = (text? x).bind fun text =>
      (parse text).toOption.bind fun y => if ms.length = 1 then some y else none := by
  rw [settled?, settle, h]
  cases x with
  | string text =>
      simp only [settleRaw, text?, Option.bind_some]
      cases parse text with
      | error e => rfl
      | ok y =>
          simp only
          split
          · rfl
          · rfl
  | _ => rfl

theorem settled?_of_depth_eq_zero {x : Json} (h : x.depth = 0) : settled? x = some x := by
  cases x with
  | array xs => simp [Json.depth] at h
  | object ms => simp [Json.depth] at h
  | _ => rfl

-- ========================================================= the first member

/-- The first key of an object is the first that is read. -/
theorem isSome_raw?_iff {read : Reader Json} {rounds : Nat} {after rest : Bytes}
    {pairs : List (String × Json)}
    (h : members (collect read) (rounds + 1) true [] after = .ok (pairs, rest)) :
    (raw? pairs.reverse).isSome = true ↔ startsRaw after = true := by
  have hfound := toOption_eq_some.2 h
  rw [members_succ, nextMember] at hfound
  unfold startsRaw
  cases hskip : skipBlanks after with
  | nil =>
      rw [hskip] at hfound
      cases hfound
  | cons b source =>
      simp only [hskip] at hfound
      by_cases hclose : b = 0x7D
      · subst hclose
        cases hfound
        simp [raw?]
      · by_cases hquote : b = 0x22
        · subst hquote
          simp only [if_neg hclose, if_true, toOption_andThen, toOption_member]
            at hfound
          obtain ⟨state, hmember, hmore⟩ := Option.bind_eq_some_iff.1 hfound
          obtain ⟨key, hkey, hvalue⟩ := Option.bind_eq_some_iff.1 hmember
          have hone : ∃ x, state.1 = [(key.1, x)] := by
            simp only [collect, Option.isSome_none, Bool.false_eq_true, if_false, toOption_mapValue,
              Option.map_eq_some_iff] at hvalue
            obtain ⟨found, -, rfl⟩ := hvalue
            exact ⟨found.1, rfl⟩
          obtain ⟨x, hx⟩ := hone
          rw [hx, members_collect, Option.map_eq_some_iff] at hmore
          obtain ⟨more, -, heq⟩ := hmore
          obtain rfl : more.1 ++ [(key.1, x)] = pairs := congrArg Prod.fst heq
          -- the key is the string that follows the brace
          obtain ⟨string, hstring, hcolon⟩ : ∃ string, stringBody source = .ok string ∧
              string.1 = key.1 := by
            rw [memberKey, toOption_andThen, Option.bind_eq_some_iff] at hkey
            obtain ⟨string, hstring, hcolon⟩ := hkey
            refine ⟨string, toOption_eq_some.1 hstring, ?_⟩
            split at hcolon
            · cases hcolon
            · split at hcolon
              · cases hcolon
                rfl
              · cases hcolon
          rw [List.reverse_append, List.reverse_singleton, List.singleton_append, raw?, ← hcolon]
          simp only [hstring]
          by_cases hraw : string.1 = rawKey
          · simp [hraw]
          · simp [hraw]
        · simp only [if_neg hclose, if_neg hquote, if_true] at hfound
          cases hfound

-- =================================================== objects that are texts

/-- After a value the end of an object of one member is what ends it. -/
theorem toOption_lastBrace (rest : Bytes) :
    (lastBrace rest).toOption
      = match nextMember false rest with
        | .ok (.close after) => some ((), after)
        | _ => none := by
  rw [lastBrace, nextMember]
  cases skipBlanks rest with
  | nil => rfl
  | cons b after =>
      simp only
      by_cases hclose : b = 0x7D
      · simp only [if_pos hclose]
        rfl
      · simp only [if_neg hclose, Bool.false_eq_true, if_false]
        by_cases hcomma : b = 0x2C
        · simp only [if_pos hcomma]
          cases skipBlanks after with
          | nil => rfl
          | cons c after =>
              simp only
              by_cases hquote : c = 0x22
              · simp only [if_pos hquote]
                rfl
              · by_cases hend : c = 0x7D
                · simp only [if_neg hquote, if_pos hend]
                  rfl
                · simp only [if_neg hquote, if_neg hend]
                  rfl
        · simp only [if_neg hcomma]
          rfl

/-- A text is read, and then the end of the object. -/
theorem toOption_heldBy (inner : String → Except Error Json) (text : String) (rest : Bytes) :
    (heldBy inner text rest).toOption
      = (inner text).toOption.bind fun x =>
        (lastBrace rest).toOption.map fun found => (x, found.2) := by
  unfold heldBy
  cases inner text with
  | error e => rfl
  | ok x => exact toOption_mapValue ..

/-- If an object goes on after its members, it has one more at least. -/
theorem exists_of_item {read : Reader α} {rounds : Nat} {state : List (String × α)}
    {rest : Bytes} {found : List (String × α) × Bytes}
    (h : (andThen (member (collect read) state rest)
      (members (collect read) rounds false)).toOption = some found) :
    ∃ m more, found.1 = more ++ m :: state := by
  rw [toOption_andThen, Option.bind_eq_some_iff] at h
  obtain ⟨next, hnext, hmore⟩ := h
  rw [toOption_member, Option.bind_eq_some_iff] at hnext
  obtain ⟨key, -, hvalue⟩ := hnext
  simp only [collect, Option.isSome_none, Bool.false_eq_true, if_false, toOption_mapValue,
    Option.map_eq_some_iff] at hvalue
  obtain ⟨x, -, rfl⟩ := hvalue
  rw [members_collect, Option.map_eq_some_iff] at hmore
  obtain ⟨more, -, rfl⟩ := hmore
  exact ⟨(key.1, x.1), more.1, rfl⟩

/-- An object that stands for a text begins with the key. -/
theorem exists_of_startsRaw {after : Bytes} (h : startsRaw after = true) :
    ∃ source rest, skipBlanks after = 0x22 :: source ∧ stringBody source = .ok (rawKey, rest) := by
  unfold startsRaw at h
  split at h
  next source hskip =>
    split at h
    next key rest hstring =>
      obtain rfl : key = rawKey := of_decide_eq_true h
      exact ⟨source, rest, hskip, hstring⟩
    next => cases h
  next => cases h

/-- An object that stands for a text is read as what its members mean. -/
theorem toOption_rawObject {after : Bytes} (h : startsRaw after = true) (depth : Nat) :
    (rawObject parse after).toOption
      = (members (collect (tree depth)) (after.length + 1) true [] after).toOption.bind
          fun found => (settled? (.object found.1.reverse)).map (·, found.2) := by
  obtain ⟨source, left, hskip, hstring⟩ := exists_of_startsRaw h
  obtain ⟨rounds, hrounds⟩ : ∃ rounds, after.length = rounds + 1 := by
    cases after with
    | nil => cases hskip
    | cons b after => exact ⟨after.length, rfl⟩
  have hnext : nextMember true after = .ok (.item source) := by
    rw [nextMember, hskip]
    rfl
  rw [rawObject, hskip, List.tail_cons, hrounds, members_succ, hnext]
  simp only [toOption_andThen, toOption_member]
  cases hkey : (memberKey source).toOption with
  | none => rfl
  | some key =>
      have hname : key.1 = rawKey := by
        rw [memberKey, hstring, andThen_ok] at hkey
        split at hkey
        · cases hkey
        · split at hkey
          · cases hkey
            rfl
          · cases hkey
      simp only [rawMember, collect, Option.bind_some, Option.isSome_none, Bool.false_eq_true,
        if_false, toOption_mapValue, hname]
      rw [picks_stringOf "raw value" depth key.2]
      cases (tree depth key.2).toOption with
      | none => rfl
      | some found =>
          obtain ⟨x, rest⟩ := found
          simp only [Option.bind_some, Option.map_some]
          have hleft : ((text? x).map (·, rest)).bind (fun found =>
                (heldBy parse found.1 found.2).toOption)
              = (text? x).bind fun text => (parse text).toOption.bind fun y =>
                (lastBrace rest).toOption.map fun found => (y, found.2) := by
            rw [Option.bind_map]
            simp only [Function.comp_def, toOption_heldBy]
          rw [hleft, toOption_lastBrace, ← collect, members_succ]
          cases hend : nextMember false rest with
          | error failure => simp [Except.toOption]
          | ok upcoming =>
              cases upcoming with
              | close after =>
                  simp only [Except.toOption, Option.bind_some, List.reverse_singleton]
                  rw [settled?_raw (x := x) (by simp [raw?])]
                  cases text? x with
                  | none => rfl
                  | some text =>
                      simp only [Option.bind_some]
                      cases parse text with
                      | error e => rfl
                      | ok y => rfl
              | item source =>
                  -- there is more than one member
                  simp only [Option.map_none, Option.bind_fun_none]
                  refine (Option.bind_eq_none_iff.2 fun found hfound => ?_).symm
                  obtain ⟨m, more, hmore⟩ := exists_of_item hfound
                  rw [hmore, settled?_raw (x := x) (by simp [raw?])]
                  simp

section

variable {bytes after : Bytes}

theorem toOption_value_list (h : skipBlanks bytes = 0x5B :: after) (depth : Nat) :
    (value (depth + 1) bytes).toOption
      = (items (value depth) (after.length + 1) true after).toOption.map
          fun found => (.array found.1, found.2) := by
  simp only [value, valueWith, h, toOption_mapValue]

theorem toOption_value_object (h : skipBlanks bytes = 0x7B :: after) (depth : Nat) :
    (value (depth + 1) bytes).toOption
      = if startsRaw after then (rawObject parse after).toOption
        else (members (collect (value depth)) (after.length + 1) true [] after).toOption.map
          fun found => (.object (Members.ofList found.1.reverse), found.2) := by
  simp only [value, valueWith, h]
  split
  · rfl
  · exact toOption_mapValue ..

theorem value_bare (hlist : ∀ after, skipBlanks bytes ≠ 0x5B :: after)
    (hobject : ∀ after, skipBlanks bytes ≠ 0x7B :: after) (depth : Nat) :
    value depth bytes = scalar (skipBlanks bytes) := by
  unfold value
  cases depth with
  | zero =>
      rw [valueWith]
      split
      next after h => exact absurd h (hlist after)
      next after h => exact absurd h (hobject after)
      next => rfl
  | succ depth =>
      rw [valueWith]
      split
      next after h => exact absurd h (hlist after)
      next after h => exact absurd h (hobject after)
      next => rfl

/-- An object that stands for no text is what its members mean. -/
theorem toOption_members_value {depth : Nat}
    (ih : Picks (value depth) (tree depth) settled?) (h : ¬ startsRaw after = true) :
    ((members (collect (value depth)) (after.length + 1) true [] after).toOption.map
        fun found => (Json.object (Members.ofList found.1.reverse), found.2))
      = (members (collect (tree depth)) (after.length + 1) true [] after).toOption.bind
          fun found => (settled? (.object found.1.reverse)).map (·, found.2) := by
  rw [(guided_collect ih).members _ true [] after]
  cases hfound : (members (collect (tree depth)) (after.length + 1) true [] after).toOption with
  | none => rfl
  | some found =>
      obtain ⟨pairs, rest⟩ := found
      have hraw : raw? pairs.reverse = none := by
        rw [← Option.not_isSome_iff_eq_none, isSome_raw?_iff (toOption_eq_some.1 hfound)]
        exact h
      simp only [Option.bind_some, settled?_object hraw, takeAll_takeMember, Option.map_map]
      cases Members.traverse settled? pairs.reverse with
      | none => rfl
      | some ms => simp

/-- What is looked at as it is read is what is meant by what is written. -/
theorem picks_value (depth : Nat) : Picks (value depth) (tree depth) settled? := by
  have hbare : ∀ (depth : Nat) (bytes : Bytes), (∀ after, skipBlanks bytes ≠ 0x5B :: after) →
      (∀ after, skipBlanks bytes ≠ 0x7B :: after) → (value depth bytes).toOption
        = (tree depth bytes).toOption.bind fun found => (settled? found.1).map (·, found.2) := by
    intro depth bytes hlist hobject
    rw [value_bare hlist hobject, tree_bare hlist hobject]
    cases hscalar : (scalar (skipBlanks bytes)).toOption with
    | none => rfl
    | some found =>
        have hdepth := (answers_scalar _ _ _ (toOption_eq_some.1 hscalar)).depth
        rw [Option.bind_some, settled?_of_depth_eq_zero (Nat.le_zero.1 hdepth)]
        rfl
  induction depth with
  | zero =>
      intro bytes
      have hopening := opening (skipBlanks bytes)
      generalize hbytes : skipBlanks bytes = source at hopening
      cases hopening with
      | list after =>
          rw [toOption_tree_list hbytes]
          simp only [value, valueWith, hbytes]
          rfl
      | object after =>
          rw [toOption_tree_object hbytes]
          simp only [value, valueWith, hbytes]
          rfl
      | bare hlist hobject => exact hbare 0 bytes (hbytes ▸ hlist) (hbytes ▸ hobject)
  | succ depth ih =>
      intro bytes
      have hopening := opening (skipBlanks bytes)
      generalize hbytes : skipBlanks bytes = source at hopening
      cases hopening with
      | list after =>
          rw [toOption_value_list hbytes, toOption_tree_list hbytes, if_neg (Nat.succ_ne_zero _),
            Nat.add_sub_cancel, picks_items ih _ true after]
          cases (items (tree depth) (after.length + 1) true after).toOption with
          | none => rfl
          | some found =>
              simp only [Option.bind_some, Option.map_some, settled?_array, Option.map_map]
              rfl
      | object after =>
          rw [toOption_value_object hbytes, toOption_tree_object hbytes,
            if_neg (Nat.succ_ne_zero _), Nat.add_sub_cancel, Option.bind_map]
          split
          next hraw => exact toOption_rawObject hraw depth
          next hraw => exact toOption_members_value ih hraw
      | bare hlist hobject => exact hbare _ bytes (hbytes ▸ hlist) (hbytes ▸ hobject)

end

-- ======================================================== unmarked values

/-- An object that does not stand for a text. -/
def NotRaw : Json → Prop
  | .object ms => raw? ms = none
  | _ => True

instance : DecidablePred NotRaw
  | .object ms => inferInstanceAs (Decidable (raw? ms = none))
  | .null | .bool _ | .int _ | .float _ | .string _ | .array _ => .isTrue trivial

/-- No object in a value stands for a text. -/
def Unmarked (x : Json) : Prop := x.Every NotRaw

instance (x : Json) : Decidable x.Unmarked := inferInstanceAs (Decidable (x.Every NotRaw))

mutual

/-- A value with the members of its objects sorted, the last of each key. -/
def sorted : Json → Json
  | .array xs => .array (sortedItems xs)
  | .object ms => .object (Members.ofList (sortedMembers ms))
  | x => x

def sortedItems : List Json → List Json
  | [] => []
  | x :: xs => sorted x :: sortedItems xs

def sortedMembers : List (String × Json) → List (String × Json)
  | [] => []
  | (key, x) :: ms => (key, sorted x) :: sortedMembers ms

end

theorem sorted_array (xs : List Json) : (Json.array xs).sorted = .array (xs.map sorted) := by
  have hitems : ∀ xs : List Json, sortedItems xs = xs.map sorted := by
    intro xs
    induction xs with
    | nil => rfl
    | cons x xs ih => rw [sortedItems, ih, List.map_cons]
  rw [sorted, hitems]

theorem sorted_object (ms : List (String × Json)) :
    (Json.object ms).sorted = .object (Members.ofList (ms.map fun m => (m.1, m.2.sorted))) := by
  have hmembers : ∀ ms : List (String × Json),
      sortedMembers ms = ms.map fun m => (m.1, m.2.sorted) := by
    intro ms
    induction ms with
    | nil => rfl
    | cons m ms ih => rw [sortedMembers, ih, List.map_cons]
  rw [sorted, hmembers]

theorem sorted_of_depth_eq_zero {x : Json} (h : x.depth = 0) : x.sorted = x := by
  cases x with
  | array xs => simp [Json.depth] at h
  | object ms => simp [Json.depth] at h
  | _ => rfl

theorem mapM_eq_some_iff {f : Json → Option α} {xs : List Json} :
    ∀ {ys : List α}, xs.mapM f = some ys ↔ List.Forall₂ (fun x y => f x = some y) xs ys := by
  induction xs with
  | nil => simp [eq_comm]
  | cons x xs ih =>
      intro ys
      simp only [List.mapM_cons, Option.bind_eq_bind, Option.bind_eq_some_iff, Option.pure_def, ih,
        Option.some.injEq, List.forall₂_cons_left_iff]
      constructor
      · rintro ⟨y, hy, ys, hys, rfl⟩
        exact ⟨y, ys, hy, hys, rfl⟩
      · rintro ⟨y, ys, hy, hys, rfl⟩
        exact ⟨y, hy, ys, hys, rfl⟩

/-- Items are taken one by one if they all are taken. -/
theorem mapM_eq_map_iff {f : Json → Option α} {g : Json → α} {xs : List Json} :
    xs.mapM f = some (xs.map g) ↔ ∀ x ∈ xs, f x = some (g x) := by
  rw [mapM_eq_some_iff, List.forall₂_map_right_iff, List.forall₂_same]

/-- A value in which no object stands for a text is meant as it is, sorted. -/
theorem settle_of_unmarked {x : Json} (h : x.Unmarked) : settle x = .ok x.sorted := by
  rw [← toOption_eq_some]
  show settled? x = some x.sorted
  unfold Unmarked at h
  induction x using holding with
  | scalar x hdepth => rw [settled?_of_depth_eq_zero hdepth, sorted_of_depth_eq_zero hdepth]
  | array xs ih =>
      have hitems := (every_array.1 h).2
      rw [settled?_array, mapM_eq_map_iff.2 fun x hx => ih x hx (hitems x hx), sorted_array]
      rfl
  | object ms ih =>
      obtain ⟨hraw, hmembers⟩ := every_object.1 h
      rw [settled?_object hraw, Members.traverse_eq_map_iff.2 fun m hm => ih m hm (hmembers m hm),
        sorted_object]
      rfl

-- --------------------------------------------------------------- sorting

/-- All that is no object is left as it is. -/
theorem Every.sorted {P : Json → Prop} (harray : ∀ xs, P (.array xs))
    (hobject : ∀ ms, P (.object ms)) {x : Json} (h : x.Every P) : x.sorted.Every P := by
  induction x using holding with
  | scalar x hdepth => rwa [sorted_of_depth_eq_zero hdepth]
  | array xs ih =>
      rw [sorted_array, every_array]
      refine ⟨harray _, fun y hy => ?_⟩
      obtain ⟨x, hx, rfl⟩ := List.mem_map.1 hy
      exact ih x hx ((every_array.1 h).2 x hx)
  | object ms ih =>
      rw [sorted_object, every_object]
      refine ⟨hobject _, fun p hp => ?_⟩
      obtain ⟨m, hm, rfl⟩ := List.mem_map.1 (Members.mem_ofList hp)
      exact ih m hm ((every_object.1 h).2 m hm)

theorem depth_sorted_le (x : Json) : x.sorted.depth ≤ x.depth := by
  induction x using holding with
  | scalar x hdepth => exact Nat.le_of_eq (congrArg Json.depth (sorted_of_depth_eq_zero hdepth))
  | array xs ih =>
      rw [sorted_array, depth, depth]
      refine Nat.succ_le_succ ((depthItems_le_iff _).2 fun y hy => ?_)
      obtain ⟨x, hx, rfl⟩ := List.mem_map.1 hy
      exact Nat.le_trans (ih x hx) ((depthItems_le_iff xs).1 (Nat.le_refl _) x hx)
  | object ms ih =>
      rw [sorted_object, depth, depth]
      refine Nat.succ_le_succ ((depthMembers_le_iff _).2 fun p hp => ?_)
      obtain ⟨m, hm, rfl⟩ := List.mem_map.1 (Members.mem_ofList hp)
      exact Nat.le_trans (ih m hm) ((depthMembers_le_iff ms).1 (Nat.le_refl _) m hm)

/-- What is sorted is not changed. -/
theorem sorted_of_ordered {x : Json} (h : x.Every Ordered) : x.sorted = x := by
  induction x using holding with
  | scalar x hdepth => exact sorted_of_depth_eq_zero hdepth
  | array xs ih =>
      have hitems := (every_array.1 h).2
      rw [sorted_array, List.map_congr_left fun x hx => ih x hx (hitems x hx), List.map_id']
  | object ms ih =>
      obtain ⟨hsorted, hmembers⟩ := every_object.1 h
      have hsame : (ms.map fun m => (m.1, m.2.sorted)) = ms := by
        rw [List.map_congr_left fun m hm => congrArg (m.1, ·) (ih m hm (hmembers m hm))]
        exact List.map_id' ms
      rw [sorted_object, hsame, Members.ofList_sorted hsorted]

theorem exists_of_forall₂ {R : α → β → Prop} {xs : List α} {ys : List β}
    (h : List.Forall₂ R xs ys) : ∀ y ∈ ys, ∃ x ∈ xs, R x y := by
  induction h with
  | nil => exact fun y hy => absurd hy List.not_mem_nil
  | cons hxy _ ih =>
      refine List.forall_mem_cons.2 ⟨⟨_, List.mem_cons_self, hxy⟩, fun y hy => ?_⟩
      obtain ⟨x, hx, hxy⟩ := ih y hy
      exact ⟨x, List.mem_cons_of_mem _ hx, hxy⟩

/-- What is meant by a value that was read is in order. -/
theorem tidy_of_settled {x : Json} (h : x.Every Kept) : ∀ y, settled? x = some y → y.Tidy := by
  induction x using holding with
  | scalar x hdepth =>
      rw [settled?_of_depth_eq_zero hdepth]
      rintro _ ⟨⟩
      exact Legible.tidy ⟨Nat.le_of_eq hdepth, h⟩
  | array xs ih =>
      intro y hy
      rw [settled?_array, Option.map_eq_some_iff] at hy
      obtain ⟨ys, hys, rfl⟩ := hy
      refine tidy_array fun y hy => ?_
      obtain ⟨x, hx, hxy⟩ := exists_of_forall₂ (mapM_eq_some_iff.1 hys) y hy
      exact ih x hx ((every_array.1 h).2 x hx) y hxy
  | object ms ih =>
      intro y hy
      cases hraw : raw? ms with
      | some text =>
          rw [settled?_raw hraw] at hy
          obtain ⟨text, -, hy⟩ := Option.bind_eq_some_iff.1 hy
          obtain ⟨z, hparse, hy⟩ := Option.bind_eq_some_iff.1 hy
          split at hy
          · cases hy
            exact tidy_of_parse (toOption_eq_some.1 hparse)
          · cases hy
      | none =>
          rw [settled?_object hraw, Option.map_eq_some_iff] at hy
          obtain ⟨taken, htaken, rfl⟩ := hy
          refine tidy_object fun m hm => ?_
          obtain ⟨m', hm', -, hsettled⟩ :=
            exists_of_forall₂ (Members.traverse_eq_some_iff.1 htaken) m hm
          exact ih m' hm' ((every_object.1 h).2 m' hm') m.2 hsettled

-- ------------------------------------------------------- meant as they are

/-- An object with one member, which stands for a text. -/
def Lone (x : Json) : Prop := ∃ text, x = .object [(rawKey, text)]

/-- No object that stands for a text is the value of a text. -/
theorem not_lone_of_parse {text : String} {x : Json} (h : parse text = .ok x) : ¬ x.Lone := by
  have hscalar : ∀ bytes, Answers (¬ Lone ·) (scalar bytes) := fun bytes =>
    (answers_scalar bytes).mono fun x hx hlone => by
      obtain ⟨text, rfl⟩ := hlone
      have hdepth := hx.depth
      simp [Json.depth] at hdepth
  have harray : ∀ xs, ¬ Lone (.array xs) := fun xs ⟨text, heq⟩ => by cases heq
  -- what is sorted to the one member has no other key
  have hobject : ∀ {after : Bytes} {read : Reader Json} {rounds : Nat},
      ¬ startsRaw after = true →
        Answers (fun pairs => ¬ Lone (.object (Members.ofList pairs.reverse)))
          (members (collect read) (rounds + 1) true [] after) := by
    rintro after read rounds hraw pairs rest hread ⟨text, heq⟩
    rw [← isSome_raw?_iff hread] at hraw
    cases hpairs : pairs.reverse with
    | nil =>
        rw [hpairs] at heq
        cases heq
    | cons m ms =>
        obtain ⟨key, x⟩ := m
        have hkey : (Keyed.ofList ((key, x) :: ms)).contains key = true := by
          rw [Keyed.contains, Keyed.get?_ofList, Keyed.isSome_last?]
          exact List.mem_cons_self
        have hmembers : Members.ofList ((key, x) :: ms) = [(rawKey, text)] := by
          rw [← hpairs]
          exact Json.object.inj heq
        have hfound : (Members.find? key [(rawKey, text)]).isSome = true := hmembers ▸ hkey
        have hsame : rawKey = key := by
          by_contra hne
          simp [Members.find?, hne] at hfound
        rw [hpairs, raw?, if_pos hsame.symm] at hraw
        exact hraw rfl
  have hlevels : ∀ levels text x, parseWithin levels text = .ok x → ¬ x.Lone := by
    intro levels
    induction levels with
    | zero => exact fun text x h => by cases h
    | succ levels ih =>
        have hvalue : ∀ depth bytes,
            Answers (¬ Lone ·) (valueWith (parseWithin levels) depth bytes) := by
          intro depth bytes
          cases depth with
          | zero =>
              unfold valueWith
              split
              · exact answers_error _
              · exact answers_error _
              · exact hscalar _
          | succ depth =>
              unfold valueWith
              split
              · exact answers_mapValue (P := fun _ => True) (fun _ _ _ => trivial)
                  fun xs _ => harray xs
              · split
                · exact answers_rawObject ih _
                next hraw => exact answers_mapValue (hobject hraw) fun pairs hpairs => hpairs
              · exact hscalar _
        exact fun text x h => of_document (hvalue depthLimit) h
  exact hlevels _ text x h

/-- If an object in order is meant as it is, then it does not stand for a text, and
so its members are meant as they are. -/
theorem members_of_settled {ms : List (String × Json)} (hsorted : Members.Sorted ms)
    (h : settled? (.object ms) = some (.object ms)) :
    raw? ms = none ∧ ∀ m ∈ ms, settled? m.2 = some m.2 := by
  cases hraw : raw? ms with
  | some x =>
      exfalso
      rw [settled?_raw hraw] at h
      obtain ⟨text, -, h⟩ := Option.bind_eq_some_iff.1 h
      obtain ⟨y, hparse, h⟩ := Option.bind_eq_some_iff.1 h
      split at h
      next hone =>
        cases h
        obtain ⟨m, rfl⟩ := List.length_eq_one_iff.1 hone
        obtain ⟨key, text⟩ := m
        refine not_lone_of_parse (toOption_eq_some.1 hparse) ⟨text, ?_⟩
        rw [raw?] at hraw
        split at hraw
        next hkey => rw [hkey]
        next => cases hraw
      next => cases h
  | none =>
      refine ⟨rfl, ?_⟩
      rw [settled?_object hraw, Option.map_eq_some_iff] at h
      obtain ⟨taken, htaken, heq⟩ := h
      have hsame : taken = ms := by
        rw [← Members.ofList_sorted (Members.sorted_traverse htaken hsorted)]
        exact Json.object.inj heq
      rw [hsame, Members.traverse_eq_some_iff, List.forall₂_same] at htaken
      exact fun m hm => (htaken m hm).2

/-- The values whose objects are in order and that are meant as they are, are those
in which no object stands for a text. -/
theorem settle_eq_ok_iff {x : Json} (h : x.Every Ordered) : settle x = .ok x ↔ x.Unmarked := by
  constructor
  · rw [← toOption_eq_some]
    unfold Unmarked
    induction x using holding with
    | scalar x hdepth =>
        intro _
        rw [every_of_depth_eq_zero hdepth]
        cases x with
        | object ms => simp [Json.depth] at hdepth
        | _ => trivial
    | array xs ih =>
        intro hsettled
        change settled? (.array xs) = _ at hsettled
        rw [settled?_array, Option.map_eq_some_iff] at hsettled
        obtain ⟨ys, hys, heq⟩ := hsettled
        cases heq
        rw [mapM_eq_some_iff, List.forall₂_same] at hys
        exact every_array.2 ⟨trivial, fun x hx =>
          ih x hx ((every_array.1 h).2 x hx) (hys x hx)⟩
    | object ms ih =>
        intro hsettled
        obtain ⟨hsorted, hmembers⟩ := every_object.1 h
        obtain ⟨hraw, hsettled⟩ := members_of_settled hsorted hsettled
        exact every_object.2 ⟨hraw, fun m hm => ih m hm (hmembers m hm) (hsettled m hm)⟩
  · intro hunmarked
    rw [settle_of_unmarked hunmarked, sorted_of_ordered h]

end TransformCache.Json
