/-
The texts of a value, as bytes and under any layout.

The compact and the pretty text differ in blanks alone: what stands before an
item, and what follows a colon. A `Layout` says which blanks these are, and
`text` writes a value under a layout, so that everything about reading a text
back is proved once (`encode_compact`, `encode_pretty`).

Items are written as they are read. The first follows the bracket; every other
follows a comma; and after the last comes the closing bracket (`tail`).
-/
import TransformCache.Json.Scalar
import TransformCache.Proofs.Utf8

namespace TransformCache.Json

open Utf8 (bytes)

-- ================================================================ layouts

/-- The blanks of a text. -/
structure Layout where
  /-- What stands before an item at a level of indentation. -/
  line : Nat → Bytes
  /-- What follows a colon. -/
  gap : Bytes
  blank_line : ∀ level, ∀ b ∈ line level, isBlank b = true
  blank_gap : ∀ b ∈ gap, isBlank b = true

/-- No blanks. -/
def Layout.compact : Layout where
  line _ := []
  gap := []
  blank_line _ _ h := (List.not_mem_nil h).elim
  blank_gap _ h := (List.not_mem_nil h).elim

/-- A line for every item. -/
def Layout.pretty : Layout where
  line level := bytes (newline level)
  gap := [0x20]
  blank_line level b h := by
    obtain ⟨c, hc, hb⟩ := List.mem_flatMap.1 h
    rcases List.mem_cons.1 hc with rfl | hc
    · rw [List.mem_singleton.1 hb]
      rfl
    · obtain rfl := (List.mem_replicate.1 hc).2
      rw [List.mem_singleton.1 hb]
      rfl
  blank_gap b h := by
    rw [List.mem_singleton.1 h]
    rfl

-- =================================================================== texts

/-- A string between its quotes. -/
def stringText (s : String) : Bytes := bytes (stringChars s)

/-- A member: its key, a colon and the text of its value. -/
def memberText (gap : Bytes) (m : String × Bytes) : Bytes :=
  stringText m.1 ++ 0x3A :: (gap ++ m.2)

/-- Further items, each after a comma, and the close. -/
def tail (pad close : Bytes) : List Bytes → Bytes
  | [] => close
  | t :: ts => 0x2C :: (pad ++ (t ++ tail pad close ts))

mutual

/-- A value under a layout, on a line of indentation `level`. -/
def text (L : Layout) (level : Nat) : Json → Bytes
  | .null => [0x6E, 0x75, 0x6C, 0x6C]
  | .bool true => [0x74, 0x72, 0x75, 0x65]
  | .bool false => [0x66, 0x61, 0x6C, 0x73, 0x65]
  | .int n => bytes (intChars n)
  | .float x => bytes (floatChars x)
  | .string s => stringText s
  | .array [] => [0x5B, 0x5D]
  | .array (x :: xs) =>
    0x5B :: (L.line (level + 1) ++ (text L (level + 1) x
      ++ tail (L.line (level + 1)) (L.line level ++ [0x5D]) (itemTexts L (level + 1) xs)))
  | .object [] => [0x7B, 0x7D]
  | .object ((key, x) :: ms) =>
    0x7B :: (L.line (level + 1) ++ (memberText L.gap (key, text L (level + 1) x)
      ++ tail (L.line (level + 1)) (L.line level ++ [0x7D])
        ((memberTexts L (level + 1) ms).map (memberText L.gap))))

/-- The texts of items. -/
def itemTexts (L : Layout) (level : Nat) : List Json → List Bytes
  | [] => []
  | x :: xs => text L level x :: itemTexts L level xs

/-- The keys of members, and the texts of their values. -/
def memberTexts (L : Layout) (level : Nat) : List (String × Json) → List (String × Bytes)
  | [] => []
  | (key, x) :: ms => (key, text L level x) :: memberTexts L level ms

end

/-- Items after a bracket, and the close. -/
def itemsText (L : Layout) (level : Nat) : List Json → Bytes
  | [] => L.line level ++ [0x5D]
  | x :: xs =>
    L.line (level + 1) ++ (text L (level + 1) x
      ++ tail (L.line (level + 1)) (L.line level ++ [0x5D]) (itemTexts L (level + 1) xs))

/-- Members after a brace, and the close. -/
def membersText (L : Layout) (level : Nat) : List (String × Json) → Bytes
  | [] => L.line level ++ [0x7D]
  | (key, x) :: ms =>
    L.line (level + 1) ++ (memberText L.gap (key, text L (level + 1) x)
      ++ tail (L.line (level + 1)) (L.line level ++ [0x7D])
        ((memberTexts L (level + 1) ms).map (memberText L.gap)))

-- ======================================================== the two layouts

mutual

theorem bytes_prettyChars (level : Nat) :
    ∀ x : Json, bytes (prettyChars level x) = text .pretty level x
  | .null => rfl
  | .bool true => rfl
  | .bool false => rfl
  | .int n => by simp only [prettyChars, text]
  | .float x => by simp only [prettyChars, text]
  | .string s => by simp only [prettyChars, text, stringText]
  | .array [] => rfl
  | .array (x :: xs) => by
      have h := bytes_prettyItems level (x :: xs)
      rw [prettyChars, text]
      exact congrArg (0x5B :: ·) h
  | .object [] => rfl
  | .object ((key, x) :: ms) => by
      have h := bytes_prettyMembers level ((key, x) :: ms)
      rw [prettyChars, text]
      exact congrArg (0x7B :: ·) h

theorem bytes_prettyItems (level : Nat) :
    ∀ xs : List Json, bytes (prettyItems (level + 1) xs ++ newline level ++ [']'])
      = itemsText .pretty level xs
  | [] => by
      rw [prettyItems, itemsText, List.nil_append, Utf8.bytes_append]
      rfl
  | [x] => by
      have hx := bytes_prettyChars (level + 1) x
      rw [prettyItems, itemsText, itemTexts, tail]
      simp only [List.append_assoc, Utf8.bytes_append, hx]
      rfl
  | x :: y :: ys => by
      have hx := bytes_prettyChars (level + 1) x
      have hrest := bytes_prettyItems level (y :: ys)
      have hcomma : ∀ cs, bytes (',' :: cs) = 0x2C :: bytes cs := fun _ => rfl
      rw [prettyItems.eq_3 _ _ _ (List.cons_ne_nil y ys), itemsText, itemTexts, tail]
      simp only [List.append_assoc, List.cons_append, Utf8.bytes_append, hcomma, hx]
      simp only [List.append_assoc, Utf8.bytes_append, itemsText] at hrest
      rw [hrest]
      rfl

theorem bytes_prettyMembers (level : Nat) :
    ∀ ms : List (String × Json), bytes (prettyMembers (level + 1) ms ++ newline level ++ ['}'])
      = membersText .pretty level ms
  | [] => by
      rw [prettyMembers, membersText, List.nil_append, Utf8.bytes_append]
      rfl
  | [(key, x)] => by
      have hx := bytes_prettyChars (level + 1) x
      have hcolon : ∀ cs, bytes (':' :: ' ' :: cs) = 0x3A :: 0x20 :: bytes cs := fun _ => rfl
      rw [prettyMembers, membersText, memberTexts, List.map_nil, tail, memberText]
      simp only [List.append_assoc, List.cons_append, Utf8.bytes_append, hcolon, hx]
      rfl
  | (key, x) :: (key', y) :: ms => by
      have hx := bytes_prettyChars (level + 1) x
      have hrest := bytes_prettyMembers level ((key', y) :: ms)
      have hcomma : ∀ cs, bytes (',' :: cs) = 0x2C :: bytes cs := fun _ => rfl
      have hcolon : ∀ cs, bytes (':' :: ' ' :: cs) = 0x3A :: 0x20 :: bytes cs := fun _ => rfl
      rw [prettyMembers.eq_3 _ _ _ _ (List.cons_ne_nil (key', y) ms), membersText, memberTexts,
        List.map_cons, tail, memberText]
      simp only [List.append_assoc, List.cons_append, Utf8.bytes_append, hcomma, hcolon, hx]
      simp only [List.append_assoc, Utf8.bytes_append, membersText] at hrest
      rw [hrest]
      rfl

end

mutual

theorem bytes_compactChars (level : Nat) :
    ∀ x : Json, bytes (compactChars x) = text .compact level x
  | .null => rfl
  | .bool true => rfl
  | .bool false => rfl
  | .int n => by simp only [compactChars, text]
  | .float x => by simp only [compactChars, text]
  | .string s => by simp only [compactChars, text, stringText]
  | .array [] => rfl
  | .array (x :: xs) => by
      have h := bytes_compactItems level (x :: xs)
      rw [compactChars, text]
      exact congrArg (0x5B :: ·) h
  | .object [] => rfl
  | .object ((key, x) :: ms) => by
      have h := bytes_compactMembers level ((key, x) :: ms)
      rw [compactChars, text]
      exact congrArg (0x7B :: ·) h

theorem bytes_compactItems (level : Nat) :
    ∀ xs : List Json, bytes (compactItems xs ++ [']']) = itemsText .compact level xs
  | [] => rfl
  | [x] => by
      have hx := bytes_compactChars (level + 1) x
      rw [compactItems, itemsText, itemTexts, tail, Utf8.bytes_append, hx]
      rfl
  | x :: y :: ys => by
      have hx := bytes_compactChars (level + 1) x
      have hrest := bytes_compactItems level (y :: ys)
      have hcomma : ∀ cs, bytes (',' :: cs) = 0x2C :: bytes cs := fun _ => rfl
      rw [compactItems.eq_3 _ _ (List.cons_ne_nil y ys), itemsText, itemTexts, tail]
      simp only [List.append_assoc, List.cons_append, Utf8.bytes_append, hcomma, hx]
      rw [← Utf8.bytes_append, hrest]
      rfl

theorem bytes_compactMembers (level : Nat) :
    ∀ ms : List (String × Json), bytes (compactMembers ms ++ ['}'])
      = membersText .compact level ms
  | [] => rfl
  | [(key, x)] => by
      have hx := bytes_compactChars (level + 1) x
      have hcolon : ∀ cs, bytes (':' :: cs) = 0x3A :: bytes cs := fun _ => rfl
      rw [compactMembers, membersText, memberTexts, List.map_nil, tail, memberText]
      simp only [List.append_assoc, List.cons_append, Utf8.bytes_append, hcolon, hx]
      rfl
  | (key, x) :: (key', y) :: ms => by
      have hx := bytes_compactChars (level + 1) x
      have hrest := bytes_compactMembers level ((key', y) :: ms)
      have hcomma : ∀ cs, bytes (',' :: cs) = 0x2C :: bytes cs := fun _ => rfl
      have hcolon : ∀ cs, bytes (':' :: cs) = 0x3A :: bytes cs := fun _ => rfl
      rw [compactMembers.eq_3 _ _ _ (List.cons_ne_nil (key', y) ms), membersText, memberTexts,
        List.map_cons, tail, memberText]
      simp only [List.append_assoc, List.cons_append, Utf8.bytes_append, hcomma, hcolon, hx]
      rw [← Utf8.bytes_append, hrest]
      rfl

end

/-- The pretty text of a value. -/
theorem encode_pretty (x : Json) : Utf8.encode x.pretty = text .pretty 0 x := by
  rw [pretty, Utf8.encode_ofList, bytes_prettyChars]

/-- The compact text of a value. -/
theorem encode_compact (x : Json) : Utf8.encode x.compact = text .compact 0 x := by
  rw [compact, Utf8.encode_ofList, bytes_compactChars 0]

end TransformCache.Json
