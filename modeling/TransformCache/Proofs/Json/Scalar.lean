/-
Strings and numbers are read back from where they were written.

A reader is *local* on a text when what it makes of the text does not depend
on what follows, and it stops where the text ends. `Reads r t o` says so: `o`
is the value that comes of `t`, or nothing if `t` is refused. What follows a
number has to be `Closed`, since a digit would go on with it; what is written
after a value always is.

Strings come back as they were. So do whole numbers of 64 bits; for the other
numbers it is enough to know that they are read as something of their own
(`reads_numeral`), because what follows them is then still read in step.
-/
import TransformCache.Proofs.Json.Layout

namespace TransformCache.Json

open Utf8 (bytes)

-- ========================================================== local readers

/-- No number goes on into what is left. -/
def Closed (rest : Bytes) : Prop :=
  ∀ b ∈ rest.head?, isDigit b = false ∧ b ≠ 0x2E ∧ b ≠ 0x65 ∧ b ≠ 0x45

/-- A reader makes `o` of a text, whatever follows it. -/
def Reads {α : Type} (r : Reader α) (t : Bytes) (o : Option α) : Prop :=
  ∀ rest, Closed rest → (r (t ++ rest)).toOption = o.map (·, rest)

theorem closed_nil : Closed [] := fun _ h => by cases h

theorem closed_cons {b : UInt8} (h : isDigit b = false ∧ b ≠ 0x2E ∧ b ≠ 0x65 ∧ b ≠ 0x45)
    (rest : Bytes) : Closed (b :: rest) := fun _ hb => by
  cases hb
  exact h

section

variable {α β : Type} {r : Reader α} {t : Bytes}

theorem andThen_ok (x : α) (rest : Bytes) (next : α → Bytes → Answer β) :
    andThen (.ok (x, rest)) next = next x rest := rfl

theorem toOption_andThen (a : Answer α) (next : α → Bytes → Answer β) :
    (andThen a next).toOption = a.toOption.bind fun x => (next x.1 x.2).toOption := by
  cases a with
  | error e => rfl
  | ok x => rfl

theorem toOption_mapValue (f : α → β) (a : Answer α) :
    (mapValue f a).toOption = a.toOption.map fun x => (f x.1, x.2) := by
  cases a with
  | error e => rfl
  | ok x => rfl

/-- What is read is what is read before nothing. -/
theorem Reads.toOption_nil {o : Option α} (h : Reads r t o) :
    (r t).toOption = o.map (·, []) := by
  have := h [] closed_nil
  rwa [List.append_nil] at this

theorem Reads.mapValue {o : Option α} (h : Reads r t o) (f : α → β) :
    Reads (fun source => Json.mapValue f (r source)) t (o.map f) := by
  intro rest hrest
  rw [toOption_mapValue, h rest hrest]
  cases o with
  | none => rfl
  | some x => rfl

end

-- ================================================================ strings

/-- Bytes that mean themselves inside a string. -/
private def Passes (b : UInt8) : Prop := b ≠ 0x22 ∧ b ≠ 0x5C ∧ ¬ b < 0x20

private theorem stringBytes_passes {bs : Bytes} (h : ∀ b ∈ bs, Passes b) (rest : Bytes) :
    stringBytes .plain (bs ++ rest) = mapValue (bs ++ ·) (stringBytes .plain rest) := by
  induction bs with
  | nil =>
      rw [List.nil_append]
      cases stringBytes .plain rest with
      | error e => rfl
      | ok x => rfl
  | cons b more ih =>
      obtain ⟨hquote, hescape, hcontrol⟩ := h b List.mem_cons_self
      rw [List.cons_append, stringBytes, if_neg hquote, if_neg hescape, if_neg hcontrol,
        ih fun c hc => h c (List.mem_cons_of_mem _ hc)]
      cases stringBytes .plain rest with
      | error e => rfl
      | ok x => rfl

/-- A character that is not escaped has bytes that mean themselves. -/
private theorem passes_encodeChar {c : Char} (hquote : c ≠ '"') (hescape : c ≠ '\\')
    (hcontrol : ¬ c.toNat < 0x20) : ∀ b ∈ String.utf8EncodeChar c, Passes b := by
  have hne : ∀ d : Char, c ≠ d → c.toNat ≠ d.toNat := fun d hd heq => hd (Char.toNat_inj.1 heq)
  have h22 : c.toNat ≠ 0x22 := hne '"' hquote
  have h5C : c.toNat ≠ 0x5C := hne '\\' hescape
  have key : ∀ n, n < 256 → n ≠ 0x22 → n ≠ 0x5C → 0x20 ≤ n → Passes (UInt8.ofNat n) := by
    intro n hn hn22 hn5C hn20
    have hbyte : (UInt8.ofNat n).toNat = n := UInt8.toNat_ofNat_of_lt' hn
    refine ⟨?_, ?_, ?_⟩
    · intro heq
      exact hn22 (by rw [← hbyte, heq]; rfl)
    · intro heq
      exact hn5C (by rw [← hbyte, heq]; rfl)
    · rw [UInt8.lt_iff_toNat_lt, hbyte]
      exact Nat.not_lt.2 hn20
  intro b hb
  unfold String.utf8EncodeChar at hb
  have htoNat : c.val.toNat = c.toNat := rfl
  simp only [htoNat] at hb
  split at hb
  · rw [List.mem_singleton.1 hb]
    exact key _ (by omega) h22 h5C (by omega)
  · split at hb
    · simp only [List.mem_cons, List.not_mem_nil, or_false] at hb
      rcases hb with rfl | rfl
      · exact key _ (by omega) (by omega) (by omega) (by omega)
      · exact key _ (by omega) (by omega) (by omega) (by omega)
    · split at hb
      · simp only [List.mem_cons, List.not_mem_nil, or_false] at hb
        rcases hb with rfl | rfl | rfl
        · exact key _ (by omega) (by omega) (by omega) (by omega)
        · exact key _ (by omega) (by omega) (by omega) (by omega)
        · exact key _ (by omega) (by omega) (by omega) (by omega)
      · simp only [List.mem_cons, List.not_mem_nil, or_false] at hb
        rcases hb with rfl | rfl | rfl | rfl
        · exact key _ (by omega) (by omega) (by omega) (by omega)
        · exact key _ (by omega) (by omega) (by omega) (by omega)
        · exact key _ (by omega) (by omega) (by omega) (by omega)
        · exact key _ (by omega) (by omega) (by omega) (by omega)

private theorem hexValue?_hexChar {n : Nat} (h : n < 16) :
    ∃ b, String.utf8EncodeChar (hexChar n) = [b] ∧ hexValue? b = some n := by
  have hall : ∀ k : Fin 16, String.utf8EncodeChar (hexChar k)
        = [UInt8.ofNat (hexChar k).toNat] ∧
      hexValue? (UInt8.ofNat (hexChar k).toNat) = some k.val := by decide
  exact ⟨_, hall ⟨n, h⟩⟩

/-- A control character as it is escaped by its number. -/
private theorem stringBytes_control {c : Char} (h : c.toNat < 0x20) (rest : Bytes) :
    stringBytes .plain
        (bytes ['\\', 'u', '0', '0', hexChar (c.toNat / 16), hexChar (c.toNat % 16)] ++ rest)
      = mapValue (String.utf8EncodeChar c ++ ·) (stringBytes .plain rest) := by
  obtain ⟨high, hhigh, hhighValue⟩ := hexValue?_hexChar (n := c.toNat / 16) (by omega)
  obtain ⟨low, hlow, hlowValue⟩ := hexValue?_hexChar (n := c.toNat % 16) (by omega)
  have hbytes : bytes ['\\', 'u', '0', '0', hexChar (c.toNat / 16), hexChar (c.toNat % 16)]
      = [0x5C, 0x75, 0x30, 0x30, high, low] := by
    simp only [bytes, List.flatMap_cons, hhigh, hlow]
    rfl
  have hzero : hexValue? 0x30 = some 0 := rfl
  have hsum : c.toNat / 16 * 16 + c.toNat % 16 = c.toNat := by omega
  have hunit : codeUnit none c.toNat = .ok (.inl c) := by
    unfold codeUnit
    simp only
    rw [if_neg (by omega), if_neg (by omega), Char.ofNat_toNat]
  rw [hbytes]
  show stringBytes (.hex none 3 (some 0)) (0x30 :: 0x30 :: high :: low :: rest) = _
  simp [stringBytes, hzero, hhighValue, hlowValue, hsum, hunit]

/-- A character as it is written in a string is read as its bytes. -/
private theorem stringBytes_escapeChar (c : Char) (rest : Bytes) :
    stringBytes .plain (bytes (escapeChar c) ++ rest)
      = mapValue (String.utf8EncodeChar c ++ ·) (stringBytes .plain rest) := by
  unfold escapeChar
  split
  next h => subst h; rfl
  next hquote =>
    split
    next h => subst h; rfl
    next hescape =>
      split
      next h => subst h; rfl
      next =>
        split
        next h => subst h; rfl
        next =>
          split
          next h => subst h; rfl
          next =>
            split
            next h => subst h; rfl
            next =>
              split
              next h => subst h; rfl
              next =>
                split
                next hcontrol => exact stringBytes_control hcontrol rest
                next hcontrol =>
                  have hone : bytes [c] = String.utf8EncodeChar c := List.append_nil _
                  rw [hone]
                  exact stringBytes_passes (passes_encodeChar hquote hescape hcontrol) rest

private theorem stringBytes_escaped (cs : List Char) (rest : Bytes) :
    stringBytes .plain (bytes (cs.flatMap escapeChar) ++ 0x22 :: rest) = .ok (bytes cs, rest) := by
  induction cs with
  | nil => rfl
  | cons c more ih =>
      rw [List.flatMap_cons, Utf8.bytes_append, List.append_assoc, stringBytes_escapeChar, ih]
      rfl

/-- A string that is written is read back. -/
theorem stringBody_stringText (s : String) (rest : Bytes) :
    ∃ after, stringText s ++ rest = 0x22 :: after ∧ stringBody after = .ok (s, rest) := by
  refine ⟨bytes (s.toList.flatMap escapeChar) ++ 0x22 :: rest, ?_, ?_⟩
  · unfold stringText stringChars
    rw [Utf8.bytes_cons, Utf8.bytes_append, List.append_assoc, List.append_assoc]
    rfl
  · have hdecode : Utf8.decode? (bytes s.toList) = some s := Utf8.decode?_encode s
    unfold stringBody
    rw [stringBytes_escaped, andThen_ok]
    simp only [hdecode]

/-- The text of a string gives away the string. -/
theorem stringChars_injective {s t : String} (h : stringChars s = stringChars t) : s = t := by
  obtain ⟨after, htext, hbody⟩ := stringBody_stringText s []
  obtain ⟨after', htext', hbody'⟩ := stringBody_stringText t []
  have hsame : stringText s = stringText t := congrArg Utf8.bytes h
  rw [hsame, htext', List.cons.injEq] at htext
  rw [← htext.2, hbody'] at hbody
  cases hbody
  rfl

end TransformCache.Json
