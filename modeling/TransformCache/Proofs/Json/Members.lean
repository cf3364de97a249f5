/-
Objects are read by their members.

# The members of a text

`memberList` reads an object as its members in the order of the text, repeated
keys and all, as the reader of values as they are written does
(`tree_eq_object_iff`). What else reads objects has a shape in mind, and judges
each member as soon as it is read.

# Readers that pick

A reader that wants a value of some shape takes a text exactly if the reader of
all values does and the value that is found has the shape: it `Picks` from what
the other reader finds. A rule for members is `Guided` by a reader if it does
this for each of them; then the object comes to what its members come to, one
after the other (`Guided.picks`, `Picks.document`).
-/
import TransformCache.Proofs.Json.Bounds
import TransformCache.Proofs.Result

namespace TransformCache.Json

variable {α β σ : Type}

-- ======================================================= readers that pick

/-- A reader takes what another one takes, if what that finds passes. -/
def Picks (r : Reader β) (read : Reader α) (pick : α → Option β) : Prop :=
  ∀ bytes, (r bytes).toOption
    = (read bytes).toOption.bind fun found => (pick found.1).map (·, found.2)

theorem picks_self (read : Reader α) : Picks read read some := by
  intro bytes
  cases (read bytes).toOption with
  | none => rfl
  | some found => rfl

theorem Picks.mapValue {γ : Type} {r : Reader β} {read : Reader α} {pick : α → Option β}
    (h : Picks r read pick) (f : β → γ) :
    Picks (fun rest => Json.mapValue f (r rest)) read fun x => (pick x).map f := by
  intro bytes
  rw [toOption_mapValue, h]
  cases (read bytes).toOption with
  | none => rfl
  | some found =>
      obtain ⟨x, rest⟩ := found
      simp only [Option.bind_some]
      cases pick x with
      | none => rfl
      | some y => rfl

/-- A list of what passes is a list all of whose items pass. -/
theorem picks_items {r : Reader β} {read : Reader α} {pick : α → Option β}
    (h : Picks r read pick) (rounds : Nat) :
    ∀ first, Picks (items r rounds first) (items read rounds first) (·.mapM pick) := by
  induction rounds with
  | zero =>
      intro first bytes
      rw [items, items]
      rfl
  | succ rounds ih =>
      intro first bytes
      rw [items_succ, items_succ]
      cases nextItem first bytes with
      | error failure => rfl
      | ok upcoming =>
          cases upcoming with
          | close rest => rfl
          | item rest =>
              simp only [oneItem]
              rw [toOption_andThen, toOption_andThen, h]
              cases (read rest).toOption with
              | none => rfl
              | some found =>
                  obtain ⟨x, after⟩ := found
                  simp only [Option.bind_some, toOption_mapValue]
                  have hmore := ih false after
                  cases hitems : (items read rounds false after).toOption with
                  | none =>
                      rw [hitems] at hmore
                      cases pick x with
                      | none => rfl
                      | some y =>
                          simp only [Option.map_some, Option.bind_some]
                          rw [hmore]
                          rfl
                  | some more =>
                      rw [hitems] at hmore
                      simp only [Option.bind_some] at hmore
                      simp only [Option.map_some, Option.bind_some, List.mapM_cons]
                      cases pick x with
                      | none => rfl
                      | some y =>
                          simp only [Option.map_some, Option.bind_some]
                          rw [hmore]
                          cases more.1.mapM pick with
                          | none => rfl
                          | some ys => rfl

-- ---------------------------------------------------------------- members

/-- Reads the key of a member, from after its quote, and the colon. -/
def memberKey (rest : Bytes) : Answer String :=
  andThen (stringBody rest) fun key rest =>
    match skipBlanks rest with
    | [] => fail .endInObject []
    | b :: rest => if b = 0x3A then .ok (key, rest) else fail .expectedColon rest

theorem toOption_member (m : MemberRule σ) (state : σ) (rest : Bytes) :
    (member m state rest).toOption
      = (memberKey rest).toOption.bind fun key =>
        if (m.refuse state key.1).isSome then none
        else (m.member state key.1 key.2).toOption := by
  rw [member, memberKey, toOption_andThen, toOption_andThen]
  cases (stringBody rest).toOption with
  | none => rfl
  | some found =>
      obtain ⟨key, rest⟩ := found
      simp only [Option.bind_some]
      cases hrefuse : m.refuse state key with
      | some fault =>
          cases skipBlanks rest with
          | nil => rfl
          | cons b after =>
              simp only
              split
              · simp [Except.toOption, hrefuse, fail]
              · rfl
      | none =>
          cases skipBlanks rest with
          | nil => rfl
          | cons b after =>
              simp only
              split
              · simp [Except.toOption, hrefuse]
              · rfl

/-- Members that are collected go in front of those that were. -/
theorem members_collect (read : Reader α) (rounds : Nat) :
    ∀ first (state : List (String × α)) bytes,
      (members (collect read) rounds first state bytes).toOption
        = (members (collect read) rounds first [] bytes).toOption.map
          fun found => (found.1 ++ state, found.2) := by
  induction rounds with
  | zero =>
      intro first state bytes
      rw [members, members]
      rfl
  | succ rounds ih =>
      intro first state bytes
      rw [members_succ, members_succ]
      cases nextMember first bytes with
      | error failure => rfl
      | ok upcoming =>
          cases upcoming with
          | close rest => rfl
          | item rest =>
              simp only
              rw [toOption_andThen, toOption_andThen, toOption_member, toOption_member]
              cases (memberKey rest).toOption with
              | none => rfl
              | some key =>
                  simp only [collect, Option.bind_some, Option.isSome_none, Bool.false_eq_true,
                    if_false, toOption_mapValue]
                  cases (read key.2).toOption with
                  | none => rfl
                  | some found =>
                      simp only [Option.map_some, Option.bind_some]
                      rw [← collect, ih false ((key.1, found.1) :: state),
                        ih false [(key.1, found.1)], Option.map_map]
                      congr 1
                      funext more
                      simp

/-- A rule that takes each value as it is found by a reader, or refuses it. -/
structure Guided (m : MemberRule σ) (read : Reader α) (take : σ → String → α → Option σ) :
    Prop where
  /-- What is refused by its key is refused whatever its value is. -/
  refuse : ∀ state key x, (m.refuse state key).isSome → take state key x = none
  member : ∀ state key, m.refuse state key = none →
    Picks (m.member state key) read (take state key)

/-- What becomes of a state if members are taken one after the other. -/
def takeAll (take : σ → String → α → Option σ) (state : σ) (ms : List (String × α)) : Option σ :=
  ms.foldlM (fun state m => take state m.1 m.2) state

@[simp] theorem takeAll_nil {take : σ → String → α → Option σ} (state : σ) :
    takeAll take state [] = some state := rfl

@[simp] theorem takeAll_cons {take : σ → String → α → Option σ} (state : σ) (m : String × α)
    (ms : List (String × α)) :
    takeAll take state (m :: ms) = (take state m.1 m.2).bind fun next => takeAll take next ms := rfl

theorem Guided.toOption_member {m : MemberRule σ} {read : Reader α}
    {take : σ → String → α → Option σ} (h : Guided m read take) (state : σ) (rest : Bytes) :
    (Json.member m state rest).toOption
      = (memberKey rest).toOption.bind fun key => (read key.2).toOption.bind fun found =>
        (take state key.1 found.1).map (·, found.2) := by
  rw [Json.toOption_member]
  congr 1
  funext key
  cases hrefuse : m.refuse state key.1 with
  | none =>
      rw [if_neg (by simp)]
      exact h.member state key.1 hrefuse key.2
  | some fault =>
      have hnone : ∀ x, take state key.1 x = none := fun x =>
        h.refuse state key.1 x (by simp [hrefuse])
      simp [hnone]

/-- Members are taken as they are collected. -/
theorem Guided.members {m : MemberRule σ} {read : Reader α} {take : σ → String → α → Option σ}
    (h : Guided m read take) (rounds : Nat) :
    ∀ first state, Picks (Json.members m rounds first state)
      (Json.members (collect read) rounds first []) fun ms => takeAll take state ms.reverse := by
  induction rounds with
  | zero =>
      intro first state bytes
      rw [Json.members, Json.members]
      rfl
  | succ rounds ih =>
      intro first state bytes
      rw [members_succ, members_succ]
      cases nextMember first bytes with
      | error failure => rfl
      | ok upcoming =>
          cases upcoming with
          | close rest => rfl
          | item rest =>
              simp only
              rw [toOption_andThen, toOption_andThen, h.toOption_member, Json.toOption_member]
              cases (memberKey rest).toOption with
              | none => rfl
              | some key =>
                  simp only [collect, Option.bind_some, Option.isSome_none, Bool.false_eq_true,
                    if_false, toOption_mapValue]
                  cases (read key.2).toOption with
                  | none => rfl
                  | some found =>
                      simp only [Option.map_some, Option.bind_some]
                      rw [← collect, members_collect read rounds false [(key.1, found.1)]]
                      cases htake : take state key.1 found.1 with
                      | none =>
                          cases (Json.members (collect read) rounds false [] found.2).toOption with
                          | none => rfl
                          | some more => simp [takeAll, htake]
                      | some next =>
                          simp only [Option.map_some, Option.bind_some]
                          rw [ih false next found.2, Option.bind_map]
                          congr 1
                          funext more
                          simp [takeAll, htake]

-- ================================================== how a value can begin

/-- A value is a list, an object, or no container. -/
inductive Opening : Bytes → Prop
  | list (after : Bytes) : Opening (0x5B :: after)
  | object (after : Bytes) : Opening (0x7B :: after)
  | bare {rest : Bytes} (hlist : ∀ after, rest ≠ 0x5B :: after)
      (hobject : ∀ after, rest ≠ 0x7B :: after) : Opening rest

theorem opening (rest : Bytes) : Opening rest := by
  cases rest with
  | nil => exact .bare (fun _ h => by cases h) (fun _ h => by cases h)
  | cons b after =>
      by_cases hlist : b = 0x5B
      · rw [hlist]
        exact .list after
      · by_cases hobject : b = 0x7B
        · rw [hobject]
          exact .object after
        · exact .bare (fun _ h => hlist (List.cons.inj h).1) (fun _ h => hobject (List.cons.inj h).1)

section Opening

variable {bytes after : Bytes}

theorem toOption_tree_list (h : skipBlanks bytes = 0x5B :: after) (depth : Nat) :
    (tree depth bytes).toOption
      = if depth = 0 then none
        else (items (tree (depth - 1)) (after.length + 1) true after).toOption.map
          fun found => (.array found.1, found.2) := by
  cases depth with
  | zero =>
      simp only [tree, h]
      rfl
  | succ depth =>
      simp only [tree, h, toOption_mapValue]
      rfl

theorem toOption_tree_object (h : skipBlanks bytes = 0x7B :: after) (depth : Nat) :
    (tree depth bytes).toOption
      = if depth = 0 then none
        else (members (collect (tree (depth - 1))) (after.length + 1) true [] after).toOption.map
          fun found => (.object found.1.reverse, found.2) := by
  cases depth with
  | zero =>
      simp only [tree, h]
      rfl
  | succ depth =>
      simp only [tree, h, toOption_mapValue]
      rfl

theorem tree_bare (hlist : ∀ after, skipBlanks bytes ≠ 0x5B :: after)
    (hobject : ∀ after, skipBlanks bytes ≠ 0x7B :: after) (depth : Nat) :
    tree depth bytes = scalar (skipBlanks bytes) := by
  cases depth with
  | zero =>
      rw [tree]
      split
      next after h => exact absurd h (hlist after)
      next after h => exact absurd h (hobject after)
      next => rfl
  | succ depth =>
      rw [tree]
      split
      next after h => exact absurd h (hlist after)
      next after h => exact absurd h (hobject after)
      next => rfl

theorem scalarOf_bare (hlist : ∀ after, skipBlanks bytes ≠ 0x5B :: after)
    (hobject : ∀ after, skipBlanks bytes ≠ 0x7B :: after) (expected : String)
    (pick : Json → Option α) :
    (scalarOf expected pick bytes).toOption
      = (scalar (skipBlanks bytes)).toOption.bind fun found =>
        (pick found.1).map (·, found.2) := by
  unfold scalarOf
  simp only
  rw [toOption_andThen]
  congr 1
  funext found
  cases pick found.1 with
  | none => rfl
  | some x => rfl

theorem scalarOf_container {b : UInt8} (hb : b = 0x5B ∨ b = 0x7B)
    (h : skipBlanks bytes = b :: after) (expected : String) (pick : Json → Option α) :
    (scalarOf expected pick bytes).toOption = none := by
  rcases hb with rfl | rfl
  · simp only [scalarOf, h]
    rfl
  · simp only [scalarOf, h]
    rfl

theorem scalarOf_nothing (expected : String) (bytes : Bytes) :
    (scalarOf (α := α) expected (fun _ => none) bytes).toOption = none := by
  have hopening := opening (skipBlanks bytes)
  generalize hrest : skipBlanks bytes = rest at hopening
  cases hopening with
  | list after => exact scalarOf_container (.inl rfl) hrest ..
  | object after => exact scalarOf_container (.inr rfl) hrest ..
  | bare hlist hobject =>
      rw [← hrest] at hlist hobject
      rw [scalarOf_bare hlist hobject]
      simp

end Opening

-- ================================================================= objects

/-- Reads an object as its members, in the order of the text. -/
def memberList (depth : Nat) (read : Reader α) : Reader (List (String × α)) :=
  objectOf "a map" depth (collect read) [] fun pairs => .ok pairs.reverse

section Objects

variable {m : MemberRule σ} {start : σ} {finish : σ → Except Fault β} {expected : String}
  {depth : Nat} {bytes after : Bytes}

theorem objectOf_opened (h : skipBlanks bytes = 0x7B :: after) :
    (objectOf expected depth m start finish bytes).toOption
      = if depth = 0 then none
        else (members m (after.length + 1) true start after).toOption.bind fun found =>
          (finish found.1).toOption.map (·, found.2) := by
  simp only [objectOf, h]
  split
  · rfl
  · rw [toOption_andThen]
    congr 1
    funext found
    cases finish found.1 with
    | error fault => rfl
    | ok x => rfl

theorem objectOf_not_opened (h : ∀ after, skipBlanks bytes ≠ 0x7B :: after) :
    (objectOf expected depth m start finish bytes).toOption = none := by
  unfold objectOf
  simp only
  split
  next after hafter => exact absurd hafter (h after)
  next => rfl
  next => exact scalarOf_nothing ..

theorem memberList_opened (h : skipBlanks bytes = 0x7B :: after) (read : Reader α) :
    (memberList depth read bytes).toOption
      = if depth = 0 then none
        else (members (collect read) (after.length + 1) true [] after).toOption.map fun found =>
          (found.1.reverse, found.2) := by
  rw [memberList, objectOf_opened h]
  split
  · rfl
  · cases (members (collect read) (after.length + 1) true [] after).toOption with
    | none => rfl
    | some found => rfl

/-- An object is what its members come to. -/
theorem Guided.picks {read : Reader α} {take : σ → String → α → Option σ}
    (h : Guided m read take) (expected : String) (depth : Nat) (start : σ)
    (finish : σ → Except Fault β) :
    Picks (objectOf expected depth m start finish) (memberList depth read) fun ms =>
      (takeAll take start ms).bind fun state => (finish state).toOption := by
  intro bytes
  by_cases hopen : ∃ after, skipBlanks bytes = 0x7B :: after
  · obtain ⟨after, hafter⟩ := hopen
    rw [objectOf_opened hafter, memberList_opened hafter]
    split
    · rfl
    · rw [h.members _ true start after]
      cases (Json.members (collect read) (after.length + 1) true [] after).toOption with
      | none => rfl
      | some found =>
          simp only [Option.bind_some, Option.map_some]
          cases takeAll take start found.1.reverse with
          | none => rfl
          | some state => rfl
  · have hnot : ∀ after, skipBlanks bytes ≠ 0x7B :: after := fun after hafter =>
      hopen ⟨after, hafter⟩
    rw [memberList, objectOf_not_opened hnot, objectOf_not_opened hnot]
    rfl

/-- The texts that are read as members are those that are read as objects. -/
theorem tree_eq_object_iff {depth : Nat} {bytes rest : Bytes} {ms : List (String × Json)} :
    tree depth bytes = .ok (.object ms, rest) ↔
      memberList depth (tree (depth - 1)) bytes = .ok (ms, rest) := by
  simp only [← toOption_eq_some]
  have hopening := opening (skipBlanks bytes)
  generalize hbytes : skipBlanks bytes = source at hopening
  cases hopening with
  | object after =>
      rw [toOption_tree_object hbytes, memberList_opened hbytes]
      split
      · simp
      · cases (members (collect (tree (depth - 1))) (after.length + 1) true [] after).toOption with
        | none => simp
        | some found => simp
  | list after =>
      have hnot : ∀ after, skipBlanks bytes ≠ 0x7B :: after := by
        rw [hbytes]
        rintro after ⟨⟩
      rw [toOption_tree_list hbytes, memberList, objectOf_not_opened hnot]
      split
      · simp
      · simp
  | bare hlist hobject =>
      rw [← hbytes] at hlist hobject
      rw [tree_bare hlist hobject, memberList, objectOf_not_opened hobject]
      constructor
      · intro hscalar
        -- no container comes of a scalar
        have hdepth := (answers_scalar _ _ _ (toOption_eq_some.1 hscalar)).depth
        simp [Json.depth] at hdepth
      · intro hnone
        cases hnone

end Objects

-- ============================================================= whole texts

theorem toOption_document (read : Reader α) (text : Bytes) :
    (document read text).toOption
      = (read text).toOption.bind fun found =>
        if skipBlanks found.2 = [] then some found.1 else none := by
  unfold document
  cases read text with
  | error failure => rfl
  | ok found =>
      obtain ⟨x, rest⟩ := found
      rw [andThen_ok]
      cases hrest : skipBlanks rest with
      | nil => simp [hrest, Except.toOption]
      | cons b after => simp [hrest, Except.toOption, fail]

/-- A whole text is picked from as it is read. -/
theorem Picks.document {r : Reader β} {read : Reader α} {pick : α → Option β}
    (h : Picks r read pick) (text : Bytes) :
    (Json.document r text).toOption = (Json.document read text).toOption.bind pick := by
  rw [toOption_document, toOption_document, h]
  cases (read text).toOption with
  | none => rfl
  | some found =>
      obtain ⟨x, rest⟩ := found
      simp only [Option.bind_some]
      by_cases hend : skipBlanks rest = []
      · simp only [hend, if_true, Option.bind_some]
        cases pick x with
        | none => rfl
        | some y => simp [hend]
      · simp only [hend, if_false, Option.bind_none]
        cases pick x with
        | none => rfl
        | some y => simp [hend]

theorem Picks.document_eq_ok_iff {r : Reader β} {read : Reader α} {pick : α → Option β}
    (h : Picks r read pick) {text : Bytes} {y : β} :
    Json.document r text = .ok y ↔ ∃ x, Json.document read text = .ok x ∧ pick x = some y := by
  rw [← toOption_eq_some, h.document, Option.bind_eq_some_iff]
  simp only [toOption_eq_some]

/-- The members of a text that is an object, in the order of the text. -/
def textMembers (text : Bytes) : Except Error (List (String × Json)) :=
  document (memberList depthLimit (tree (depthLimit - 1))) text

/-- The texts that are read as members are those that are objects. -/
theorem document_eq_object_iff {text : Bytes} {ms : List (String × Json)} :
    document (tree depthLimit) text = .ok (.object ms) ↔ textMembers text = .ok ms := by
  unfold textMembers
  have htree := fun rest => @tree_eq_object_iff depthLimit text rest ms
  simp only [← toOption_eq_some] at htree ⊢
  simp only [toOption_document, Option.bind_eq_some_iff]
  constructor
  · rintro ⟨⟨x, rest⟩, hread, hend⟩
    split at hend
    next hrest =>
      cases hend
      exact ⟨_, (htree rest).1 hread, if_pos hrest⟩
    next => cases hend
  · rintro ⟨⟨ms', rest⟩, hread, hend⟩
    split at hend
    next hrest =>
      cases hend
      exact ⟨_, (htree rest).2 hread, if_pos hrest⟩
    next => cases hend

end TransformCache.Json
