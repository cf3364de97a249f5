/-
Where the text of an object ends.

The end of an object is the brace that closes its first one. To find it, no
number has to be read and no escape resolved: it is enough to count brackets
outside of strings (`afterClose`). Every value leaves that count as it was
(`passed_compactChars`), numbers that cannot be read back included, so no text
of an object begins another (`object_append_inj`).
-/
import TransformCache.Proofs.Json.Numeral

namespace TransformCache.Json

-- ============================================================ counting brackets

/-- Where a text is cut: outside of strings, in one, or after a backslash in
one. -/
inductive Cut where
  | outside
  | inside
  | escape

/-- What follows the bracket that closes the text, where `depth` more are open
than the one that is to be closed. -/
def afterClose (depth : Nat) : Cut → List Char → Option (List Char)
  | _, [] => none
  | .outside, c :: rest =>
    if c = '"' then afterClose depth .inside rest
    else if c = '[' ∨ c = '\x7b' then afterClose (depth + 1) .outside rest
    else if c = ']' ∨ c = '\x7d' then
      if depth = 0 then some rest else afterClose (depth - 1) .outside rest
    else afterClose depth .outside rest
  | .inside, c :: rest =>
    if c = '\\' then afterClose depth .escape rest
    else if c = '"' then afterClose depth .outside rest
    else afterClose depth .inside rest
  | .escape, _ :: rest => afterClose depth .inside rest

/-- A text that leaves the count of brackets as it was. -/
def Passed (text : List Char) : Prop :=
  ∀ depth rest, afterClose depth .outside (text ++ rest) = afterClose depth .outside rest

theorem passed_nil : Passed [] := fun _ _ => rfl

theorem Passed.append {a b : List Char} (ha : Passed a) (hb : Passed b) : Passed (a ++ b) := by
  intro depth rest
  rw [List.append_assoc, ha, hb]

/-- A character that is neither a quote nor a bracket. -/
def Neutral (c : Char) : Prop :=
  c ≠ '"' ∧ c ≠ '[' ∧ c ≠ '\x7b' ∧ c ≠ ']' ∧ c ≠ '\x7d'

instance (c : Char) : Decidable (Neutral c) :=
  inferInstanceAs (Decidable (c ≠ '"' ∧ c ≠ '[' ∧ c ≠ '\x7b' ∧ c ≠ ']' ∧ c ≠ '\x7d'))

theorem passed_cons {c : Char} (hc : Neutral c) {text : List Char} (h : Passed text) :
    Passed (c :: text) := by
  obtain ⟨hquote, hlist, hobject, hunlist, hunobject⟩ := hc
  intro depth rest
  rw [List.cons_append, afterClose]
  simp only [hquote, hlist, hobject, hunlist, hunobject, or_self, if_false]
  exact h depth rest

theorem passed_of_neutral {text : List Char} (h : ∀ c ∈ text, Neutral c) : Passed text := by
  induction text with
  | nil => exact passed_nil
  | cons c rest ih =>
      exact passed_cons (h c List.mem_cons_self) (ih fun d hd => h d (List.mem_cons_of_mem _ hd))

/-- What stands between brackets is passed with them. -/
theorem passed_list {text : List Char} (h : Passed text) : Passed ('[' :: (text ++ [']'])) := by
  intro depth rest
  have hinner := h (depth + 1) (']' :: rest)
  simp only [List.cons_append, List.append_assoc, List.nil_append]
  rw [afterClose, if_neg (by decide), if_pos (.inl rfl), hinner]
  rfl

theorem passed_object {text : List Char} (h : Passed text) :
    Passed ('\x7b' :: (text ++ ['\x7d'])) := by
  intro depth rest
  have hinner := h (depth + 1) ('\x7d' :: rest)
  simp only [List.cons_append, List.append_assoc, List.nil_append]
  rw [afterClose, if_neg (by decide), if_pos (.inr rfl), hinner]
  rfl

-- ================================================================== scalars

/-- An escape ends in the string that it stands in. -/
theorem afterClose_escapeChar (c : Char) (depth : Nat) (rest : List Char) :
    afterClose depth .inside (escapeChar c ++ rest) = afterClose depth .inside rest := by
  unfold escapeChar
  by_cases hquote : c = '"'
  · rw [if_pos hquote]
    rfl
  by_cases hslash : c = '\\'
  · rw [if_neg hquote, if_pos hslash]
    rfl
  rw [if_neg hquote, if_neg hslash]
  repeat' split
  · rfl
  · rfl
  · rfl
  · rfl
  · rfl
  · -- the two digits of a control character are neither a quote nor a backslash
    have hhex : ∀ n < 16, hexChar n ≠ '\\' ∧ hexChar n ≠ '"' := by decide
    have hsmall : c.toNat / 16 < 16 := by omega
    obtain ⟨hhigh, hhigh'⟩ := hhex _ hsmall
    obtain ⟨hlow, hlow'⟩ := hhex _ (Nat.mod_lt c.toNat (by decide))
    simp [afterClose, hhigh, hhigh', hlow, hlow']
  · simp [afterClose, hquote, hslash]

theorem passed_stringChars (s : String) : Passed (stringChars s) := by
  intro depth rest
  have hinside : ∀ cs : List Char,
      afterClose depth .inside (cs.flatMap escapeChar ++ ('"' :: rest))
        = afterClose depth .outside rest := by
    intro cs
    induction cs with
    | nil => rfl
    | cons c cs ih => rw [List.flatMap_cons, List.append_assoc, afterClose_escapeChar, ih]
  have hopen := hinside s.toList
  simp only [stringChars, List.cons_append, List.append_assoc, List.nil_append]
  rw [afterClose, if_pos rfl, hopen]

/-- What numbers are written with besides digits, and what stands between
values. -/
theorem neutral_mark : ∀ c ∈ ['0', '.', 'e', '+', '-', ',', ':'], Neutral c := by
  simp [Neutral]

theorem neutral_of_isDigit {c : Char} (h : c.isDigit = true) : Neutral c := by
  refine ⟨?_, ?_, ?_, ?_, ?_⟩
  all_goals
    rintro rfl
    revert h
    decide

theorem neutral_natChars {n : Nat} : ∀ c ∈ natChars n, Neutral c := fun c hc =>
  neutral_of_isDigit (isDigit_of_mem_natChars c hc)

theorem neutral_intChars (n : Int) : ∀ c ∈ intChars n, Neutral c := by
  intro c hc
  cases n with
  | ofNat n => exact neutral_natChars c hc
  | negSucc n =>
      rcases List.mem_cons.1 hc with rfl | hc
      · exact neutral_mark '-' (by simp)
      · exact neutral_natChars c hc

theorem neutral_decimalChars {digits : List Char} (h : ∀ c ∈ digits, Neutral c) (lead : Int) :
    ∀ c ∈ decimalChars digits lead, Neutral c := by
  have hzero : Neutral '0' := neutral_mark '0' (by simp)
  have hpoint : Neutral '.' := neutral_mark '.' (by simp)
  intro c hc
  unfold decimalChars at hc
  simp only at hc
  split at hc
  · split at hc
    · simp only [List.mem_append, List.mem_cons, List.not_mem_nil, or_false] at hc
      rcases hc with (hc | hc) | rfl | rfl
      · exact h c hc
      · rw [(List.mem_replicate.1 hc).2]
        exact hzero
      · exact hpoint
      · exact hzero
    · simp only [List.mem_append, List.mem_cons] at hc
      rcases hc with hc | rfl | hc
      · exact h c (List.mem_of_mem_take hc)
      · exact hpoint
      · exact h c (List.mem_of_mem_drop hc)
  · split at hc
    · simp only [List.mem_append, List.mem_cons, List.not_mem_nil, or_false] at hc
      rcases hc with ((rfl | rfl) | hc) | hc
      · exact hzero
      · exact hpoint
      · rw [(List.mem_replicate.1 hc).2]
        exact hzero
      · exact h c hc
    · simp only [List.mem_append, List.mem_cons, List.not_mem_nil, or_false] at hc
      rcases hc with ((hc | hc) | rfl | hsign) | hc
      · exact h c (List.mem_of_mem_take hc)
      · split at hc
        · cases hc
        · rcases List.mem_cons.1 hc with rfl | hc
          · exact hpoint
          · exact h c (List.mem_of_mem_drop hc)
      · exact neutral_mark 'e' (by simp)
      · split at hsign
        · rw [hsign]
          exact neutral_mark '-' (by simp)
        · rw [hsign]
          exact neutral_mark '+' (by simp)
      · exact neutral_natChars c hc

theorem neutral_floatChars (x : Binary64) : ∀ c ∈ floatChars x, Neutral c := by
  have hsize : ∀ c ∈ (if x.shortest.digits = 0 then ['0', '.', '0']
      else decimalChars (natChars x.shortest.digits)
        (x.shortest.exponent + ((natChars x.shortest.digits).length - 1 : Nat))), Neutral c := by
    split
    · have hmarks : ['0', '.', '0'] ⊆ ['0', '.', 'e', '+', '-', ',', ':'] := by decide
      exact fun c hc => neutral_mark c (hmarks hc)
    · exact neutral_decimalChars neutral_natChars _
  intro c hc
  unfold floatChars at hc
  simp only at hc
  split at hc
  · rcases List.mem_cons.1 hc with rfl | hc
    · exact neutral_mark '-' (by simp)
    · exact hsize c hc
  · exact hsize c hc

-- =================================================================== values

theorem neutral_comma : Neutral ',' := neutral_mark ',' (by simp)

theorem neutral_colon : Neutral ':' := neutral_mark ':' (by simp)

mutual

theorem passed_compactChars : ∀ x : Json, Passed (compactChars x)
  | .null => passed_of_neutral (by simp [compactChars, Neutral])
  | .bool true => passed_of_neutral (by simp [compactChars, Neutral])
  | .bool false => passed_of_neutral (by simp [compactChars, Neutral])
  | .int n => passed_of_neutral (neutral_intChars n)
  | .float x => passed_of_neutral (neutral_floatChars x)
  | .string s => passed_stringChars s
  | .array items => passed_list (passed_compactItems items)
  | .object members => passed_object (passed_compactMembers members)

theorem passed_compactItems : ∀ items : List Json, Passed (compactItems items)
  | [] => passed_nil
  | [item] => passed_compactChars item
  | item :: next :: rest =>
    (passed_compactChars item).append
      (passed_cons neutral_comma (passed_compactItems (next :: rest)))

theorem passed_compactMembers : ∀ members : List (String × Json), Passed (compactMembers members)
  | [] => passed_nil
  | [(key, value)] =>
    (passed_stringChars key).append (passed_cons neutral_colon (passed_compactChars value))
  | (key, value) :: next :: rest =>
    (passed_stringChars key).append (passed_cons neutral_colon ((passed_compactChars value).append
      (passed_cons neutral_comma (passed_compactMembers (next :: rest)))))

end

/-- The end of an object is found by its brackets alone. -/
theorem afterClose_object (members : List (String × Json)) (rest : List Char) :
    afterClose 0 .outside (compactChars (.object members) ++ rest).tail = some rest := by
  have hpassed := passed_compactMembers members 0 ('\x7d' :: rest)
  rw [compactChars]
  simp only [List.cons_append, List.append_assoc, List.nil_append, List.tail_cons]
  rw [hpassed]
  rfl

/-- The text of an object shows where it ends. -/
theorem object_append_inj {a b : List (String × Json)} {s t : String}
    (h : (object a).compact ++ s = (object b).compact ++ t) :
    (object a).compact = (object b).compact ∧ s = t := by
  have hchars := congrArg String.toList h
  simp only [String.toList_append, compact, String.toList_ofList] at hchars
  have hrest : s.toList = t.toList := by
    have ha := afterClose_object a s.toList
    rw [hchars, afterClose_object b t.toList] at ha
    exact (Option.some.inj ha).symm
  rw [hrest] at hchars
  refine ⟨?_, String.toList_injective hrest⟩
  unfold compact
  rw [List.append_cancel_right hchars]

end TransformCache.Json
