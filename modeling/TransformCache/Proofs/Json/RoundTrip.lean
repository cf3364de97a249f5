/-
A text that was written is read back.

# What comes back

`reread depth x` is what reading the text of `x` as it is written gives where
`depth` more containers may be open, or nothing if the text is refused. It is a
function of the value alone: layouts differ in blanks, which are passed over,
and whatever follows a value is left where it is (`reads_text`). A value whose
numbers are whole numbers of 64 bits comes back as it was exactly when it nests
no deeper than is allowed (`reread_of_plain`).

# Lists

Items and members are read in rounds, each of which takes one off the text.
`items_tail` and `members_tail` go along the text with the list that it was
written from. Rounds never run out, because every item takes a byte.
-/
import TransformCache.Json.Parser
import TransformCache.Proofs.Json.Numeral
import TransformCache.Proofs.Keyed

namespace TransformCache.Json

open Utf8 (bytes)

-- ================================================================== blanks

theorem skipBlanks_append {pad : Bytes} (h : ∀ b ∈ pad, isBlank b = true) (rest : Bytes) :
    skipBlanks (pad ++ rest) = skipBlanks rest := by
  induction pad with
  | nil => rfl
  | cons b more ih =>
      have hb := h b List.mem_cons_self
      rw [List.cons_append, skipBlanks, List.dropWhile_cons, if_pos hb]
      exact ih fun c hc => h c (List.mem_cons_of_mem _ hc)

theorem skipBlanks_cons {b : UInt8} (h : isBlank b = false) (rest : Bytes) :
    skipBlanks (b :: rest) = b :: rest := by
  rw [skipBlanks, List.dropWhile_cons, if_neg (by simp [h])]

/-- A blank, a comma or a closing bracket ends what is before it. -/
theorem closed_line {line : Bytes} (h : ∀ b ∈ line, isBlank b = true) {close : UInt8}
    (hclose : isDigit close = false ∧ close ≠ 0x2E ∧ close ≠ 0x65 ∧ close ≠ 0x45)
    (rest : Bytes) : Closed (line ++ close :: rest) := by
  cases line with
  | nil => exact closed_cons hclose rest
  | cons b more =>
      refine closed_cons ?_ _
      have hb := h b List.mem_cons_self
      simp only [isBlank, Bool.or_eq_true, decide_eq_true_eq] at hb
      rcases hb with ((rfl | rfl) | rfl) | rfl
      · decide
      · decide
      · decide
      · decide

-- =================================================================== items

/-- A text that begins an item: neither a blank nor the end of the list. -/
def Starts (t : Bytes) : Prop := ∃ b more, t = b :: more ∧ isBlank b = false ∧ b ≠ 0x5D

/-- All of the texts are read, or the first that is refused. -/
inductive ReadsAll {α : Type} (r : Reader α) : List Bytes → Option (List α) → Prop
  | nil : ReadsAll r [] (some [])
  | cons {t : Bytes} {ts : List Bytes} {o : Option α} {os : Option (List α)}
      (ht : Starts t) (h : Reads r t o) (hs : ReadsAll r ts os) :
      ReadsAll r (t :: ts) (o.bind fun x => os.map (x :: ·))

/-- Every further item takes a byte. -/
theorem length_tail (pad line : Bytes) (close : UInt8) (ts : List Bytes) :
    ts.length < (tail pad (line ++ [close]) ts).length := by
  induction ts with
  | nil => simp [tail]
  | cons t ts ih =>
      simp only [tail, List.length_cons, List.length_append] at ih ⊢
      omega

/-- Further items end what is before them. -/
theorem closed_tail {pad line : Bytes} (hline : ∀ b ∈ line, isBlank b = true) {close : UInt8}
    (hclose : isDigit close = false ∧ close ≠ 0x2E ∧ close ≠ 0x65 ∧ close ≠ 0x45)
    (ts : List Bytes) (rest : Bytes) : Closed (tail pad (line ++ [close]) ts ++ rest) := by
  cases ts with
  | nil =>
      rw [tail, List.append_assoc]
      exact closed_line hline hclose rest
  | cons t ts => exact closed_cons (by decide) _

section Items

variable {α : Type} {r : Reader α} {pad line t : Bytes}
  (hpad : ∀ b ∈ pad, isBlank b = true) (hline : ∀ b ∈ line, isBlank b = true)

include hpad in
/-- The first item follows the bracket. -/
theorem items_first (ht : Starts t) (rounds : Nat) (rest : Bytes) :
    items r (rounds + 1) true (pad ++ (t ++ rest))
      = oneItem r (items r rounds false) (t ++ rest) := by
  obtain ⟨b, more, rfl, hblank, hclose⟩ := ht
  simp only [items, skipBlanks_append hpad, List.cons_append, skipBlanks_cons hblank,
    if_neg hclose, if_true]

include hpad in
/-- Every other item follows a comma. -/
theorem items_comma (ht : Starts t) (rounds : Nat) (rest : Bytes) :
    items r (rounds + 1) false (0x2C :: (pad ++ (t ++ rest)))
      = oneItem r (items r rounds false) (t ++ rest) := by
  obtain ⟨b, more, rfl, hblank, hclose⟩ := ht
  have hcomma : skipBlanks (0x2C :: (pad ++ (b :: more ++ rest)))
      = 0x2C :: (pad ++ (b :: more ++ rest)) := skipBlanks_cons rfl _
  simp only [items, hcomma]
  rw [if_neg (by decide), if_neg (by decide), if_pos trivial]
  simp only [skipBlanks_append hpad, List.cons_append, skipBlanks_cons hblank, if_neg hclose]

include hline in
theorem items_close (first : Bool) (rounds : Nat) (rest : Bytes) :
    items r (rounds + 1) first (line ++ 0x5D :: rest) = .ok ([], rest) := by
  have hclose : skipBlanks (0x5D :: rest) = 0x5D :: rest := skipBlanks_cons rfl rest
  simp only [items, skipBlanks_append hline, hclose]
  exact if_pos trivial

include hpad hline in
/-- Further items are read to the bracket. -/
theorem items_tail {ts : List Bytes} {os : Option (List α)} (h : ReadsAll r ts os) :
    ∀ rounds, ts.length < rounds → ∀ rest,
      (items r rounds false (tail pad (line ++ [0x5D]) ts ++ rest)).toOption
        = os.map (·, rest) := by
  induction h with
  | nil =>
      intro rounds hrounds rest
      obtain ⟨k, rfl⟩ := Nat.exists_eq_add_of_lt hrounds
      rw [tail, List.append_assoc]
      exact congrArg Except.toOption (items_close hline false _ rest)
  | @cons t ts o os ht h _ ih =>
      intro rounds hrounds rest
      -- a round for this item, and the others for the items after it
      cases rounds with
      | zero => cases hrounds
      | succ rounds =>
          have hlt : ts.length < rounds := Nat.lt_of_succ_lt_succ hrounds
          simp only [tail, List.cons_append, List.append_assoc]
          rw [items_comma hpad ht, oneItem, toOption_andThen,
            h _ (closed_tail hline (by decide) ts rest)]
          cases o with
          | none => rfl
          | some x =>
              show (mapValue (x :: ·) (items r rounds false _)).toOption = _
              rw [toOption_mapValue, ih rounds hlt rest]
              cases os with
              | none => rfl
              | some xs => rfl

include hpad hline in
/-- A list that is not empty is read from after its bracket. -/
theorem items_nonempty {ts : List Bytes} {os : Option (List α)} (h : ReadsAll r (t :: ts) os)
    (rest : Bytes) :
    let after := pad ++ (t ++ tail pad (line ++ [0x5D]) ts) ++ rest
    (items r (after.length + 1) true after).toOption = os.map (·, rest) := by
  cases h with
  | @cons _ _ o os ht h hs =>
      intro after
      have hlt : ts.length < after.length := by
        have := length_tail pad line 0x5D ts
        simp only [after, List.length_append] at this ⊢
        omega
      have hafter : after = pad ++ (t ++ (tail pad (line ++ [0x5D]) ts ++ rest)) := by
        simp only [after, List.append_assoc]
      generalize after.length = rounds at hlt
      rw [hafter, items_first hpad ht, oneItem, toOption_andThen,
        h _ (closed_tail hline (by decide) ts rest)]
      cases o with
      | none => rfl
      | some x =>
          show (mapValue (x :: ·) (items r rounds false _)).toOption = _
          rw [toOption_mapValue, items_tail hpad hline hs rounds hlt rest]
          cases os with
          | none => rfl
          | some xs => rfl

end Items

-- ================================================================= members

/-- Members of an object, each key with the text of its value, take a rule from
a state to another, or one of their values is refused. -/
inductive Feeds {σ : Type} (m : MemberRule σ) (gap : Bytes) :
    σ → List (String × Bytes) → Option σ → Prop
  | nil (s : σ) : Feeds m gap s [] (some s)
  | refused {s : σ} {key : String} {t : Bytes} {ms : List (String × Bytes)}
      (hkey : m.refuse s key = none) (h : Reads (m.member s key) (gap ++ t) none) :
      Feeds m gap s ((key, t) :: ms) none
  | cons {s s' : σ} {key : String} {t : Bytes} {ms : List (String × Bytes)} {o : Option σ}
      (hkey : m.refuse s key = none) (h : Reads (m.member s key) (gap ++ t) (some s'))
      (hs : Feeds m gap s' ms o) : Feeds m gap s ((key, t) :: ms) o

section Members

variable {σ : Type} {m : MemberRule σ} {gap pad line : Bytes}
  (hpad : ∀ b ∈ pad, isBlank b = true) (hline : ∀ b ∈ line, isBlank b = true)

/-- A member begins with a quote, and its value follows its key. -/
theorem member_memberText {s : σ} {key : String} (hkey : m.refuse s key = none)
    (gap t rest : Bytes) :
    ∃ after, memberText gap (key, t) ++ rest = 0x22 :: after ∧
      member m s after = m.member s key (gap ++ t ++ rest) := by
  obtain ⟨after, htext, hbody⟩ := stringBody_stringText key (0x3A :: (gap ++ t ++ rest))
  refine ⟨after, ?_, ?_⟩
  · rw [← htext, memberText]
    simp
  · have hcolon : skipBlanks (0x3A :: (gap ++ t ++ rest)) = 0x3A :: (gap ++ t ++ rest) :=
      skipBlanks_cons rfl _
    rw [member, hbody, andThen_ok]
    simp only [hkey, hcolon]
    exact if_pos trivial

include hpad in
/-- The first member follows the brace. -/
theorem members_first (s : σ) (rounds : Nat) (after : Bytes) :
    members m (rounds + 1) true s (pad ++ 0x22 :: after)
      = andThen (member m s after) (members m rounds false) := by
  have hquote : skipBlanks (0x22 :: after) = 0x22 :: after := skipBlanks_cons rfl after
  simp only [members, skipBlanks_append hpad, hquote]
  rw [if_neg (by decide), if_pos trivial, if_pos trivial]

include hpad in
/-- Every other member follows a comma. -/
theorem members_comma (s : σ) (rounds : Nat) (after : Bytes) :
    members m (rounds + 1) false s (0x2C :: (pad ++ 0x22 :: after))
      = andThen (member m s after) (members m rounds false) := by
  have hquote : skipBlanks (0x22 :: after) = 0x22 :: after := skipBlanks_cons rfl after
  have hcomma : skipBlanks (0x2C :: (pad ++ 0x22 :: after)) = 0x2C :: (pad ++ 0x22 :: after) :=
    skipBlanks_cons rfl _
  simp only [members, hcomma, skipBlanks_append hpad, hquote]
  rw [if_neg (by decide), if_neg (by decide), if_pos trivial, if_pos trivial]

include hline in
theorem members_close (first : Bool) (s : σ) (rounds : Nat) (rest : Bytes) :
    members m (rounds + 1) first s (line ++ 0x7D :: rest) = .ok (s, rest) := by
  have hclose : skipBlanks (0x7D :: rest) = 0x7D :: rest := skipBlanks_cons rfl rest
  simp only [members, skipBlanks_append hline, hclose]
  exact if_pos trivial

include hpad hline in
/-- Further members are read to the brace. -/
theorem members_tail {s : σ} {ms : List (String × Bytes)} {o : Option σ}
    (h : Feeds m gap s ms o) :
    ∀ rounds, ms.length < rounds → ∀ rest,
      (members m rounds false s
          (tail pad (line ++ [0x7D]) (ms.map (memberText gap)) ++ rest)).toOption
        = o.map (·, rest) := by
  induction h with
  | nil s =>
      intro rounds hrounds rest
      obtain ⟨k, rfl⟩ := Nat.exists_eq_add_of_lt hrounds
      rw [List.map_nil, tail, List.append_assoc]
      exact congrArg Except.toOption (members_close hline false s _ rest)
  | @refused s key t ms hkey h =>
      intro rounds hrounds rest
      cases rounds with
      | zero => cases hrounds
      | succ rounds =>
          obtain ⟨after, htext, hmember⟩ := member_memberText hkey gap t
            (tail pad (line ++ [0x7D]) (ms.map (memberText gap)) ++ rest)
          simp only [List.map_cons, tail, List.cons_append, List.append_assoc] at htext hmember ⊢
          rw [htext, members_comma hpad, toOption_andThen, hmember,
            ← List.append_assoc, h _ (closed_tail hline (by decide) _ rest)]
          rfl
  | @cons s s' key t ms o hkey h _ ih =>
      intro rounds hrounds rest
      cases rounds with
      | zero => cases hrounds
      | succ rounds =>
          have hlt : ms.length < rounds := Nat.lt_of_succ_lt_succ hrounds
          obtain ⟨after, htext, hmember⟩ := member_memberText hkey gap t
            (tail pad (line ++ [0x7D]) (ms.map (memberText gap)) ++ rest)
          simp only [List.map_cons, tail, List.cons_append, List.append_assoc] at htext hmember ⊢
          rw [htext, members_comma hpad, toOption_andThen, hmember,
            ← List.append_assoc, h _ (closed_tail hline (by decide) _ rest)]
          exact ih rounds hlt rest

include hpad hline in
/-- An object that is not empty is read from after its brace. -/
theorem members_nonempty {s : σ} {key : String} {t : Bytes} {ms : List (String × Bytes)}
    {o : Option σ} (h : Feeds m gap s ((key, t) :: ms) o) (rest : Bytes) :
    let after := pad ++ (memberText gap (key, t)
      ++ tail pad (line ++ [0x7D]) (ms.map (memberText gap))) ++ rest
    (members m (after.length + 1) true s after).toOption = o.map (·, rest) := by
  intro after
  have hlt : ms.length < after.length := by
    have := length_tail pad line 0x7D (ms.map (memberText gap))
    simp only [after, List.length_append, List.length_map] at this ⊢
    omega
  have hafter : after = pad ++ (memberText gap (key, t)
      ++ (tail pad (line ++ [0x7D]) (ms.map (memberText gap)) ++ rest)) := by
    simp only [after, List.append_assoc]
  generalize after.length = rounds at hlt
  cases h with
  | refused hkey h =>
      obtain ⟨source, htext, hmember⟩ := member_memberText hkey gap t
        (tail pad (line ++ [0x7D]) (ms.map (memberText gap)) ++ rest)
      rw [hafter, htext, members_first hpad, toOption_andThen, hmember,
        h _ (closed_tail hline (by decide) _ rest)]
      rfl
  | cons hkey h hs =>
      obtain ⟨source, htext, hmember⟩ := member_memberText hkey gap t
        (tail pad (line ++ [0x7D]) (ms.map (memberText gap)) ++ rest)
      rw [hafter, htext, members_first hpad, toOption_andThen, hmember,
        h _ (closed_tail hline (by decide) _ rest)]
      exact members_tail hpad hline hs rounds hlt rest

end Members

-- ================================================================== values

/-- A text that begins a value which is no container. -/
def StartsScalar (t : Bytes) : Prop :=
  ∃ b more, t = b :: more ∧ isBlank b = false ∧ b ≠ 0x5D ∧ b ≠ 0x5B ∧ b ≠ 0x7B

theorem StartsScalar.starts {t : Bytes} (h : StartsScalar t) : Starts t := by
  obtain ⟨b, more, heq, hblank, hclose, -⟩ := h
  exact ⟨b, more, heq, hblank, hclose⟩

theorem startsScalar_stringText (s : String) : StartsScalar (stringText s) := by
  unfold stringText stringChars
  rw [Utf8.bytes_cons]
  exact ⟨0x22, _, rfl, by decide⟩

theorem startsScalar_digit {b : UInt8} (hb : isDigit b = true) (more : Bytes) :
    StartsScalar (b :: more) := by
  have hne : ∀ c : UInt8, isDigit c = false → b ≠ c := by
    rintro c hc rfl
    rw [hb] at hc
    cases hc
  refine ⟨b, more, rfl, ?_, hne _ rfl, hne _ rfl, hne _ rfl⟩
  simp [isBlank, hne 0x20 rfl, hne 0x09 rfl, hne 0x0A rfl, hne 0x0D rfl]

theorem startsScalar_numeral {t : Bytes} (ht : Numeral t) : StartsScalar t := by
  cases ht with
  | @positive ds t hds ht =>
      obtain ⟨b, more, rfl⟩ := List.exists_cons_of_ne_nil hds.ne_nil
      exact startsScalar_digit (hds.isDigit b List.mem_cons_self) _
  | negative hds ht => exact ⟨0x2D, _, rfl, by decide⟩

/-- Every value begins with something that begins an item. -/
theorem starts_text (L : Layout) (level : Nat) (x : Json) : Starts (text L level x) := by
  cases x with
  | null => exact ⟨0x6E, _, rfl, by decide⟩
  | bool b =>
      cases b with
      | true => exact ⟨0x74, _, rfl, by decide⟩
      | false => exact ⟨0x66, _, rfl, by decide⟩
  | int n =>
      rw [text]
      exact (startsScalar_numeral (numeral_intChars n)).starts
  | float f =>
      rw [text]
      exact (startsScalar_numeral (numeral_floatChars f)).starts
  | string s =>
      rw [text]
      exact (startsScalar_stringText s).starts
  | array xs =>
      cases xs with
      | nil => exact ⟨0x5B, _, rfl, by decide⟩
      | cons x xs => rw [text]; exact ⟨0x5B, _, rfl, by decide⟩
  | object ms =>
      cases ms with
      | nil => exact ⟨0x7B, _, rfl, by decide⟩
      | cons m ms => rw [text]; exact ⟨0x7B, _, rfl, by decide⟩

theorem tree_append {pad : Bytes} (h : ∀ b ∈ pad, isBlank b = true) (depth : Nat)
    (rest : Bytes) : tree depth (pad ++ rest) = tree depth rest := by
  cases depth with
  | zero => simp only [tree, skipBlanks_append h]
  | succ depth => simp only [tree, skipBlanks_append h]

/-- What is no container is read as a scalar, however deep it lies. -/
theorem tree_scalar {t : Bytes} (ht : StartsScalar t) (depth : Nat) :
    tree depth t = scalar t := by
  obtain ⟨b, more, rfl, hblank, -, hlist, hobject⟩ := ht
  cases depth with
  | zero =>
      simp only [tree, skipBlanks_cons hblank]
      split
      next after h => exact absurd (List.cons.inj h).1 hlist
      next after h => exact absurd (List.cons.inj h).1 hobject
      next => rfl
  | succ depth =>
      simp only [tree, skipBlanks_cons hblank]
      split
      next after h => exact absurd (List.cons.inj h).1 hlist
      next after h => exact absurd (List.cons.inj h).1 hobject
      next => rfl

theorem reads_tree_of_scalar {t : Bytes} {o : Option Json} (ht : StartsScalar t)
    (h : Reads scalar t o) (depth : Nat) : Reads (tree depth) t o := by
  intro rest hrest
  obtain ⟨b, more, rfl, hstart⟩ := ht
  have happend : StartsScalar (b :: more ++ rest) := ⟨b, more ++ rest, rfl, hstart⟩
  rw [tree_scalar happend, h rest hrest]

theorem tree_list (depth : Nat) (after : Bytes) :
    tree (depth + 1) (0x5B :: after)
      = mapValue .array (items (tree depth) (after.length + 1) true after) := by
  have hopen : skipBlanks (0x5B :: after) = 0x5B :: after := skipBlanks_cons rfl after
  simp only [tree, hopen]

theorem tree_object (depth : Nat) (after : Bytes) :
    tree (depth + 1) (0x7B :: after)
      = mapValue (fun pairs => .object pairs.reverse)
        (members (collect (tree depth)) (after.length + 1) true [] after) := by
  have hopen : skipBlanks (0x7B :: after) = 0x7B :: after := skipBlanks_cons rfl after
  simp only [tree, hopen]

/-- No container is read where none may be open. -/
theorem tree_zero {b : UInt8} (hb : b = 0x5B ∨ b = 0x7B) (after : Bytes) :
    (tree 0 (b :: after)).toOption = none := by
  rcases hb with rfl | rfl
  · have hopen : skipBlanks (0x5B :: after) = 0x5B :: after := skipBlanks_cons rfl after
    simp only [tree, hopen]
    rfl
  · have hopen : skipBlanks (0x7B :: after) = 0x7B :: after := skipBlanks_cons rfl after
    simp only [tree, hopen]
    rfl

-- ========================================================= what comes back

def rereadNumber (t : Bytes) : Option Json := (scalar t).toOption.map (·.1)

mutual

/-- What the text of a value is read as, where `depth` more containers may be
open. -/
def reread (depth : Nat) : Json → Option Json
  | .null => some .null
  | .bool b => some (.bool b)
  | .int n => rereadNumber (bytes (intChars n))
  | .float x => rereadNumber (bytes (floatChars x))
  | .string s => some (.string s)
  | .array xs =>
    match depth with
    | 0 => none
    | depth + 1 => (rereadItems depth xs).map .array
  | .object ms =>
    match depth with
    | 0 => none
    | depth + 1 => (rereadMembers depth ms).map .object

def rereadItems (depth : Nat) : List Json → Option (List Json)
  | [] => some []
  | x :: xs => (reread depth x).bind fun y => (rereadItems depth xs).map (y :: ·)

def rereadMembers (depth : Nat) : List (String × Json) → Option (List (String × Json))
  | [] => some []
  | (key, x) :: ms =>
    (reread depth x).bind fun y => (rereadMembers depth ms).map ((key, y) :: ·)

end

theorem reads_number {t : Bytes} (ht : Numeral t) (depth : Nat) :
    Reads (tree depth) t (rereadNumber t) := by
  obtain ⟨o, ho⟩ := reads_numeral ht
  have heq : rereadNumber t = o := by
    unfold rereadNumber
    rw [ho.toOption_nil]
    cases o with
    | none => rfl
    | some x => rfl
  rw [heq]
  exact reads_tree_of_scalar (startsScalar_numeral ht) ho depth

mutual

theorem reads_text (L : Layout) (level depth : Nat) :
    ∀ x : Json, Reads (tree depth) (text L level x) (reread depth x)
  | .null => by
      rw [text, reread]
      exact reads_tree_of_scalar ⟨0x6E, _, rfl, by decide⟩ (fun _ _ => rfl) depth
  | .bool true => by
      rw [text, reread]
      exact reads_tree_of_scalar ⟨0x74, _, rfl, by decide⟩ (fun _ _ => rfl) depth
  | .bool false => by
      rw [text, reread]
      exact reads_tree_of_scalar ⟨0x66, _, rfl, by decide⟩ (fun _ _ => rfl) depth
  | .int n => by
      rw [text, reread]
      exact reads_number (numeral_intChars n) depth
  | .float x => by
      rw [text, reread]
      exact reads_number (numeral_floatChars x) depth
  | .string s => by
      rw [text, reread]
      refine reads_tree_of_scalar (startsScalar_stringText s) (fun rest _ => ?_) depth
      obtain ⟨after, htext, hbody⟩ := stringBody_stringText s rest
      rw [htext]
      show (mapValue Json.string (stringBody after)).toOption = _
      rw [hbody]
      rfl
  | .array [] => by
      intro rest _
      cases depth with
      | zero => exact tree_zero (.inl rfl) _
      | succ depth =>
          have hclose : items (tree depth) ((0x5D :: rest).length + 1) true ([] ++ 0x5D :: rest)
              = .ok ([], rest) := items_close (fun _ h => (List.not_mem_nil h).elim) true _ rest
          show (tree (depth + 1) (0x5B :: 0x5D :: rest)).toOption = _
          rw [tree_list]
          rw [List.nil_append] at hclose
          rw [hclose]
          rfl
  | .array (x :: xs) => by
      intro rest _
      cases depth with
      | zero => rw [text]; exact tree_zero (.inl rfl) _
      | succ depth =>
          have hall := reads_itemTexts L (level + 1) depth (x :: xs)
          rw [itemTexts] at hall
          have hitems := items_nonempty (L.blank_line (level + 1)) (L.blank_line level) hall rest
          rw [text, List.cons_append, tree_list, toOption_mapValue, hitems, reread]
          cases rereadItems depth (x :: xs) with
          | none => rfl
          | some ys => rfl
  | .object [] => by
      intro rest _
      cases depth with
      | zero => exact tree_zero (.inr rfl) _
      | succ depth =>
          have hclose : members (collect (tree depth)) ((0x7D :: rest).length + 1) true []
              ([] ++ 0x7D :: rest) = .ok ([], rest) :=
            members_close (fun _ h => (List.not_mem_nil h).elim) true [] _ rest
          show (tree (depth + 1) (0x7B :: 0x7D :: rest)).toOption = _
          rw [tree_object]
          rw [List.nil_append] at hclose
          rw [hclose]
          rfl
  | .object ((key, x) :: ms) => by
      intro rest _
      cases depth with
      | zero => rw [text]; exact tree_zero (.inr rfl) _
      | succ depth =>
          have hfeeds := feeds_memberTexts L (level + 1) depth ((key, x) :: ms) []
          rw [memberTexts] at hfeeds
          have hmembers := members_nonempty (L.blank_line (level + 1)) (L.blank_line level)
            hfeeds rest
          rw [text, List.cons_append, tree_object, toOption_mapValue, hmembers, reread]
          cases rereadMembers depth ((key, x) :: ms) with
          | none => rfl
          | some ys => simp

theorem reads_itemTexts (L : Layout) (level depth : Nat) :
    ∀ xs : List Json, ReadsAll (tree depth) (itemTexts L level xs) (rereadItems depth xs)
  | [] => .nil
  | x :: xs => by
      rw [itemTexts, rereadItems]
      exact .cons (starts_text L level x) (reads_text L level depth x)
        (reads_itemTexts L level depth xs)

theorem feeds_memberTexts (L : Layout) (level depth : Nat) :
    ∀ (ms : List (String × Json)) (state : List (String × Json)),
      Feeds (collect (tree depth)) L.gap state (memberTexts L level ms)
        ((rereadMembers depth ms).map fun ys => ys.reverse ++ state)
  | [], state => .nil state
  | (key, x) :: ms, state => by
      have hx := reads_text L level depth x
      have hmember : Reads ((collect (tree depth)).member state key)
          (L.gap ++ text L level x) ((reread depth x).map fun y => (key, y) :: state) := by
        intro rest hrest
        show (mapValue _ (tree depth (L.gap ++ text L level x ++ rest))).toOption = _
        rw [List.append_assoc, tree_append L.blank_gap]
        exact hx.mapValue _ rest hrest
      rw [memberTexts, rereadMembers]
      cases hread : reread depth x with
      | none =>
          rw [hread] at hmember
          exact .refused rfl hmember
      | some y =>
          rw [hread] at hmember
          have hrest := feeds_memberTexts L level depth ms ((key, y) :: state)
          refine .cons rfl hmember ?_
          cases hms : rereadMembers depth ms with
          | none => rw [hms] at hrest; exact hrest
          | some ys =>
              rw [hms] at hrest
              simpa using hrest

end

-- ============================================================ plain values

mutual

/-- How deep the containers of a value nest. -/
def depth : Json → Nat
  | .array xs => depthItems xs + 1
  | .object ms => depthMembers ms + 1
  | _ => 0

def depthItems : List Json → Nat
  | [] => 0
  | x :: xs => max (depth x) (depthItems xs)

def depthMembers : List (String × Json) → Nat
  | [] => 0
  | (_, x) :: ms => max (depth x) (depthMembers ms)

end

mutual

/-- Every number is a whole number of 64 bits, and the members of every object
are sorted. -/
def Plain : Json → Prop
  | .int n => IsWhole n
  | .float _ => False
  | .array xs => PlainItems xs
  | .object ms => Members.Sorted ms ∧ PlainMembers ms
  | _ => True

def PlainItems : List Json → Prop
  | [] => True
  | x :: xs => Plain x ∧ PlainItems xs

def PlainMembers : List (String × Json) → Prop
  | [] => True
  | (_, x) :: ms => Plain x ∧ PlainMembers ms

end

theorem plainItems_iff {xs : List Json} : PlainItems xs ↔ ∀ x ∈ xs, x.Plain := by
  induction xs with
  | nil => simp [PlainItems]
  | cons x rest ih => simp [PlainItems, ih]

theorem plainMembers_iff {ms : List (String × Json)} :
    PlainMembers ms ↔ ∀ m ∈ ms, m.2.Plain := by
  induction ms with
  | nil => simp [PlainMembers]
  | cons head rest ih => simp [PlainMembers, ih]

theorem depthItems_le_iff {n : Nat} (xs : List Json) :
    depthItems xs ≤ n ↔ ∀ x ∈ xs, x.depth ≤ n := by
  induction xs with
  | nil => simp [depthItems]
  | cons x rest ih => rw [depthItems, Nat.max_le, ih, List.forall_mem_cons]

theorem depthMembers_le_iff {n : Nat} (ms : List (String × Json)) :
    depthMembers ms ≤ n ↔ ∀ m ∈ ms, m.2.depth ≤ n := by
  induction ms with
  | nil => simp [depthMembers]
  | cons head rest ih => rw [depthMembers, Nat.max_le, ih, List.forall_mem_cons]

/-- A whole number of 64 bits comes back; any other does not come back as a
whole number. -/
theorem rereadNumber_int (n : Int) :
    rereadNumber (bytes (intChars n))
      = if IsWhole n then some (.int n)
        else (ofDigits n).map .float := by
  unfold rereadNumber
  rw [(reads_intChars n).toOption_nil, Option.map_map]
  exact Option.map_id'

mutual

/-- A plain value comes back if it nests no deeper than is allowed, and not
otherwise. -/
theorem reread_of_plain (d : Nat) :
    ∀ x : Json, x.Plain → reread d x = if x.depth ≤ d then some x else none
  | .null, _ => by simp [reread, depth]
  | .bool b, _ => by simp [reread, depth]
  | .string s, _ => by simp [reread, depth]
  | .int n, h => by
      have hn : IsWhole n := h
      rw [reread, rereadNumber_int, if_pos hn]
      simp [depth]
  | .float x, h => h.elim
  | .array xs, h => by
      cases d with
      | zero => simp [reread, depth]
      | succ d =>
          have hxs := rereadItems_of_plain d xs h
          simp only [reread, depth, hxs, Nat.add_le_add_iff_right]
          split <;> rfl
  | .object ms, h => by
      cases d with
      | zero => simp [reread, depth]
      | succ d =>
          have hms := rereadMembers_of_plain d ms h.2
          simp only [reread, depth, hms, Nat.add_le_add_iff_right]
          split <;> rfl

theorem rereadItems_of_plain (d : Nat) :
    ∀ xs : List Json, PlainItems xs →
      rereadItems d xs = if depthItems xs ≤ d then some xs else none
  | [], _ => by simp [rereadItems, depthItems]
  | x :: xs, h => by
      have hx := reread_of_plain d x h.1
      have hxs := rereadItems_of_plain d xs h.2
      simp only [rereadItems, depthItems, hx, hxs, Nat.max_le]
      by_cases hd : x.depth ≤ d
      · by_cases hds : depthItems xs ≤ d
        · simp [hd, hds]
        · simp [hd, hds]
      · simp [hd]

theorem rereadMembers_of_plain (d : Nat) :
    ∀ ms : List (String × Json), PlainMembers ms →
      rereadMembers d ms = if depthMembers ms ≤ d then some ms else none
  | [], _ => by simp [rereadMembers, depthMembers]
  | (key, x) :: ms, h => by
      have hx := reread_of_plain d x h.1
      have hms := rereadMembers_of_plain d ms h.2
      simp only [rereadMembers, depthMembers, hx, hms, Nat.max_le]
      by_cases hd : x.depth ≤ d
      · by_cases hds : depthMembers ms ≤ d
        · simp [hd, hds]
        · simp [hd, hds]
      · simp [hd]

end

-- ============================================================= whole texts

/-- A text that is read to its end is a document. -/
theorem document_of_reads {α : Type} {r : Reader α} {t : Bytes} {o : Option α}
    (h : Reads r t o) : (document r t).toOption = o := by
  have hnil := h.toOption_nil
  unfold document
  cases hr : r t with
  | error e =>
      rw [hr] at hnil
      cases o with
      | none => rfl
      | some x => cases hnil
  | ok found =>
      obtain ⟨x, rest⟩ := found
      rw [hr] at hnil
      cases o with
      | none => cases hnil
      | some y =>
          cases hnil
          rfl

end TransformCache.Json
