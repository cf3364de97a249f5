/-
Numbers are read to their end.

A `Numeral` is what a number looks like: digits, perhaps a fraction, perhaps
an exponent, perhaps a sign before it all. Every number is written as one, and
a numeral is read as a whole wherever no digit, point or exponent follows it
(`reads_numeral`). What it is read as is not said there, since a number out of
range is read as another, or refused.

A whole number of 64 bits is read as itself (`reads_intChars`): its digits are
those of the number, without a zero in front.
-/
import TransformCache.Proofs.Json.Scalar

namespace TransformCache.Json

open Utf8 (bytes)

-- ================================================================= digits

/-- One digit at least, and nothing else. -/
structure Digits (ds : Bytes) : Prop where
  ne_nil : ds ≠ []
  isDigit : ∀ b ∈ ds, isDigit b = true

/-- No digit follows. -/
def NoDigit (rest : Bytes) : Prop := ∀ b ∈ rest.head?, isDigit b = false

theorem Closed.noDigit {rest : Bytes} (h : Closed rest) : NoDigit rest := fun b hb => (h b hb).1

theorem takeWhile_digits {ds rest : Bytes} (h : ∀ b ∈ ds, isDigit b = true)
    (hrest : NoDigit rest) :
    (ds ++ rest).takeWhile isDigit = ds ∧ (ds ++ rest).dropWhile isDigit = rest := by
  induction ds with
  | nil =>
      cases rest with
      | nil => exact ⟨rfl, rfl⟩
      | cons b more =>
          have hb := hrest b rfl
          simp [hb]
  | cons b more ih =>
      obtain ⟨htake, hdrop⟩ := ih fun c hc => h c (List.mem_cons_of_mem _ hc)
      have hb := h b List.mem_cons_self
      simp [hb, htake, hdrop]

theorem encodeChar_digit {c : Char} (hc : c.isDigit = true) :
    String.utf8EncodeChar c = [UInt8.ofNat c.toNat] ∧ (UInt8.ofNat c.toNat).toNat = c.toNat ∧
      isDigit (UInt8.ofNat c.toNat) = true := by
  have hrange : 48 ≤ c.toNat ∧ c.toNat ≤ 57 := by
    simp only [Char.isDigit, Bool.and_eq_true, decide_eq_true_eq] at hc
    exact hc
  have hbyte : (UInt8.ofNat c.toNat).toNat = c.toNat :=
    UInt8.toNat_ofNat_of_lt' (show c.toNat < 256 by omega)
  refine ⟨Utf8.encodeChar_ascii (by omega), hbyte, ?_⟩
  simp only [isDigit, UInt8.le_iff_toNat_le, hbyte, Bool.and_eq_true, decide_eq_true_eq]
  exact hrange

/-- Characters that are digits are written as digits. -/
theorem digits_bytes {cs : List Char} (hne : cs ≠ []) (h : ∀ c ∈ cs, c.isDigit = true) :
    Digits (bytes cs) := by
  constructor
  · intro hnil
    obtain ⟨c, more, rfl⟩ := List.exists_cons_of_ne_nil hne
    rw [Utf8.bytes_cons] at hnil
    exact String.utf8EncodeChar_ne_nil (List.append_eq_nil_iff.1 hnil).1
  · intro b hb
    obtain ⟨c, hc, hbc⟩ := List.mem_flatMap.1 hb
    obtain ⟨hone, -, hdigit⟩ := encodeChar_digit (h c hc)
    rw [hone] at hbc
    rw [List.mem_singleton.1 hbc]
    exact hdigit

theorem natChars_ne_nil (n : Nat) : natChars n ≠ [] := fun hnil => by
  have hlen : 0 < (natChars n).length := Nat.length_toDigits_pos
  rw [hnil] at hlen
  cases hlen

theorem isDigit_of_mem_natChars {n : Nat} : ∀ c ∈ natChars n, c.isDigit = true :=
  fun _ hc => Nat.isDigit_of_mem_toDigits (by omega) (by omega) hc

theorem digits_natChars (n : Nat) : Digits (bytes (natChars n)) :=
  digits_bytes (natChars_ne_nil n) isDigit_of_mem_natChars

/-- What digits come to, after others that came to `value`. -/
def digitsValue (value : Nat) (ds : Bytes) : Nat :=
  ds.foldl (fun value b => 10 * value + (b.toNat - 0x30)) value

theorem digitsValue_natChars (n : Nat) : digitsValue 0 (bytes (natChars n)) = n := by
  induction n using Nat.strongRecOn with
  | ind n ih =>
      have hlast : ∀ d, d < 10 → bytes [Nat.digitChar d] = [UInt8.ofNat (d + 48)] := by decide
      have hvalue : ∀ d, d < 10 → (UInt8.ofNat (d + 48)).toNat - 0x30 = d := by decide
      by_cases hn : n < 10
      · rw [natChars, Nat.toDigits_of_lt_base hn, hlast n hn]
        show 10 * 0 + ((UInt8.ofNat (n + 48)).toNat - 0x30) = n
        rw [hvalue n hn, Nat.mul_zero, Nat.zero_add]
      · have hmod : n % 10 < 10 := Nat.mod_lt n (by omega)
        rw [natChars, Nat.toDigits_of_base_le (by omega) (by omega), Utf8.bytes_append,
          hlast _ hmod]
        have hrest : digitsValue 0 (bytes (Nat.toDigits 10 (n / 10))) = n / 10 :=
          ih (n / 10) (by omega)
        unfold digitsValue at hrest ⊢
        rw [List.foldl_append, hrest]
        show 10 * (n / 10) + ((UInt8.ofNat (n % 10 + 48)).toNat - 0x30) = n
        rw [hvalue _ hmod]
        omega

theorem le_digitsValue (ds : Bytes) : ∀ value, value ≤ digitsValue value ds := by
  induction ds with
  | nil => exact fun value => Nat.le_refl value
  | cons b ds ih =>
      intro value
      have hnext := ih (10 * value + (b.toNat - 0x30))
      rw [digitsValue, List.foldl_cons, ← digitsValue]
      omega

/-- Digits are gathered to the number that they write, unless it is past the
limit. -/
theorem gather_of_le (ds : Bytes) :
    ∀ {value}, digitsValue value ds ≤ gatherLimit → gather value ds = (digitsValue value ds, 0) := by
  induction ds with
  | nil => exact fun _ => rfl
  | cons b ds ih =>
      intro value h
      rw [digitsValue, List.foldl_cons, ← digitsValue] at h ⊢
      rw [gather]
      exact (if_pos (Nat.le_trans (le_digitsValue ds _) h)).trans (ih h)

/-- If it is, some digits are left out. -/
theorem gather_of_lt (ds : Bytes) :
    ∀ {value}, value ≤ gatherLimit → gatherLimit < digitsValue value ds →
      (gather value ds).2 ≠ 0 := by
  induction ds with
  | nil => exact fun hvalue h => absurd h (Nat.not_lt.2 hvalue)
  | cons b ds ih =>
      intro value _ h
      rw [digitsValue, List.foldl_cons, ← digitsValue] at h
      rw [gather]
      split
      next hnext => exact ih hnext h
      next => exact Nat.succ_ne_zero _

/-- A number other than zero has no zero in front. -/
theorem head?_natChars {n : Nat} (hn : 0 < n) : (bytes (natChars n)).head? ≠ some 0x30 := by
  induction n using Nat.strongRecOn with
  | ind n ih =>
      by_cases hlt : n < 10
      · have hfirst : ∀ d, d < 10 → 0 < d →
            (bytes [Nat.digitChar d]).head? ≠ some 0x30 := by decide
        rw [natChars, Nat.toDigits_of_lt_base hlt]
        exact hfirst n hlt hn
      · rw [natChars, Nat.toDigits_of_base_le (by omega) (by omega), Utf8.bytes_append]
        have hrest := ih (n / 10) (by omega) (by omega)
        obtain ⟨b, more, hmore⟩ := List.exists_cons_of_ne_nil (digits_natChars (n / 10)).ne_nil
        rw [natChars] at hrest hmore
        rw [hmore] at hrest ⊢
        exact hrest

-- ========================================================= parts of numerals

section

variable {negative : Bool} {ds rest : Bytes}

/-- What is made of a text here does not depend on what follows. -/
def Settled (read : Bytes → Answer Json) : Prop :=
  ∃ o : Option Json, ∀ rest, Closed rest → (read rest).toOption = o.map (·, rest)

theorem toOption_decimal (negative : Bool) (digits : Nat) (exponent : Int) (rest : Bytes) :
    (decimal negative digits exponent rest).toOption
      = ((Binary64.ofParts negative digits exponent).map Json.float).map (·, rest) := by
  unfold decimal
  cases Binary64.ofParts negative digits exponent with
  | none => rfl
  | some x => rfl

theorem settled_decimal (negative : Bool) (digits : Nat) (exponent : Int) :
    Settled (decimal negative digits exponent) :=
  ⟨_, fun rest _ => toOption_decimal negative digits exponent rest⟩

theorem afterWhole_of_closed {whole left : Nat} (h : Closed rest) :
    afterWhole negative whole left rest = afterWhole.ofWhole negative whole left rest := by
  cases rest with
  | nil => rfl
  | cons b after =>
      obtain ⟨-, hpoint, he, hE⟩ := h b rfl
      rw [afterWhole, if_neg hpoint, if_neg (by simp [he, hE])]

theorem settled_afterWhole (whole left : Nat) : Settled (afterWhole negative whole left) := by
  cases hw : if left = 0 then wholeNumber negative whole else none with
  | some n =>
      refine ⟨some (.int n), fun rest h => ?_⟩
      rw [afterWhole_of_closed h, afterWhole.ofWhole, hw]
      rfl
  | none =>
      obtain ⟨o, ho⟩ := settled_decimal negative whole left
      refine ⟨o, fun rest h => ?_⟩
      rw [afterWhole_of_closed h, afterWhole.ofWhole, hw]
      exact ho rest h

/-- Digits of an exponent are gone over, or the first that takes it past the
limit is, and then the others. -/
theorem exponentDigits_digits (hds : ∀ b ∈ ds, isDigit b = true) :
    ∀ value : Nat, ∃ read more, (∀ b ∈ more, isDigit b = true) ∧
      (read.2 = false → more = []) ∧
      ∀ rest, NoDigit rest → exponentDigits value (ds ++ rest) = (read, more ++ rest) := by
  induction ds with
  | nil =>
      intro value
      refine ⟨(value, false), [], fun _ h => (List.not_mem_nil h).elim, fun _ => rfl,
        fun rest hrest => ?_⟩
      cases rest with
      | nil => rfl
      | cons b after => simp [exponentDigits, hrest b rfl]
  | cons b more ih =>
      intro value
      have hb := hds b List.mem_cons_self
      have hmore := fun c hc => hds c (List.mem_cons_of_mem _ hc)
      by_cases hover : exponentLimit < 10 * value + (b.toNat - 0x30)
      · refine ⟨(value, true), more, hmore, (fun h => by cases h), fun rest _ => ?_⟩
        rw [List.cons_append, exponentDigits, if_pos hb]
        exact if_pos hover
      · obtain ⟨read, left, hleft, hall, hread⟩ := ih hmore (10 * value + (b.toNat - 0x30))
        refine ⟨read, left, hleft, hall, fun rest hrest => ?_⟩
        rw [List.cons_append, exponentDigits, if_pos hb, ← hread rest hrest]
        exact if_neg hover

/-- What is made of the digits of an exponent. -/
def ofExponent (negative : Bool) (digits : Nat) (shift : Int) (down : Bool) :
    (Nat × Bool) × Bytes → Answer Json
  | ((_, true), rest) =>
    if digits ≠ 0 && !down then fail .numberOutOfRange rest
    else .ok (.float (Binary64.zero negative), rest.dropWhile isDigit)
  | ((value, false), rest) =>
    decimal negative digits (shift + (if down then -(value : Int) else value)) rest

theorem exponentPart_sign (digits : Nat) (shift : Int) {sign b : UInt8}
    (hsign : sign = 0x2B ∨ sign = 0x2D) (hb : isDigit b = true) (rest : Bytes) :
    exponentPart negative digits shift (sign :: b :: rest)
      = ofExponent negative digits shift (sign = 0x2D) (exponentDigits 0 (b :: rest)) := by
  rcases hsign with rfl | rfl
  · rw [exponentPart]
    exact if_pos hb
  · rw [exponentPart]
    exact if_pos hb

/-- An exponent with its sign. -/
theorem settled_exponentPart (negative : Bool) (digits : Nat) (shift : Int) {sign : UInt8}
    (hsign : sign = 0x2B ∨ sign = 0x2D) (hds : Digits ds) :
    Settled fun rest => exponentPart negative digits shift (sign :: (ds ++ rest)) := by
  obtain ⟨⟨value, huge⟩, more, hmore, hall, hread⟩ := exponentDigits_digits hds.isDigit 0
  have hstart : ∀ rest, Closed rest →
      exponentPart negative digits shift (sign :: (ds ++ rest))
        = ofExponent negative digits shift (sign = 0x2D) ((value, huge), more ++ rest) := by
    intro rest h
    rw [← hread rest h.noDigit]
    obtain ⟨b, bs, rfl⟩ := List.exists_cons_of_ne_nil hds.ne_nil
    exact exponentPart_sign digits shift hsign (hds.isDigit b List.mem_cons_self) _
  cases huge with
  | false =>
      obtain rfl := hall rfl
      obtain ⟨o, ho⟩ := settled_decimal negative digits
        (shift + (if decide (sign = 0x2D) then -(value : Int) else value))
      refine ⟨o, fun rest h => ?_⟩
      show (exponentPart negative digits shift (sign :: (ds ++ rest))).toOption = _
      rw [hstart rest h]
      exact ho rest h
  | true =>
      refine ⟨if digits ≠ 0 && !(decide (sign = 0x2D)) then none
        else some (.float (Binary64.zero negative)), fun rest h => ?_⟩
      show (exponentPart negative digits shift (sign :: (ds ++ rest))).toOption = _
      rw [hstart rest h, ofExponent, (takeWhile_digits hmore h.noDigit).2]
      split <;> rfl

/-- From after the digits before a point, to the end. -/
theorem settled_afterFraction (negative : Bool) (digits : Nat) (shift : Int) :
    Settled (afterFraction negative digits shift) := by
  obtain ⟨o, ho⟩ := settled_decimal negative digits shift
  refine ⟨o, fun rest h => ?_⟩
  rw [← ho rest h]
  cases rest with
  | nil => rfl
  | cons b after =>
      obtain ⟨-, -, he, hE⟩ := h b rfl
      rw [afterFraction, if_neg (by simp [he, hE])]

end

-- ================================================================ numerals

/-- What may follow the whole part of a number. -/
inductive NumeralTail : Bytes → Prop
  | none : NumeralTail []
  | fraction {fs : Bytes} (hfs : Digits fs) : NumeralTail (0x2E :: fs)
  | exponent {sign : UInt8} {es : Bytes} (hsign : sign = 0x2B ∨ sign = 0x2D)
      (hes : Digits es) : NumeralTail (0x65 :: sign :: es)
  | both {sign : UInt8} {fs es : Bytes} (hfs : Digits fs) (hsign : sign = 0x2B ∨ sign = 0x2D)
      (hes : Digits es) : NumeralTail (0x2E :: (fs ++ 0x65 :: sign :: es))

/-- What a number looks like. -/
inductive Numeral : Bytes → Prop
  | positive {ds t : Bytes} (hds : Digits ds) (ht : NumeralTail t) : Numeral (ds ++ t)
  | negative {ds t : Bytes} (hds : Digits ds) (ht : NumeralTail t) :
      Numeral (0x2D :: (ds ++ t))

theorem NumeralTail.noDigit {t : Bytes} (ht : NumeralTail t) {rest : Bytes}
    (h : Closed rest) : NoDigit (t ++ rest) := by
  intro b hb
  cases ht with
  | none => exact h.noDigit b hb
  | _ => cases hb; rfl

/-- How far digits before a point, with some left out, and the digits of a
fraction after them have to be moved. -/
def fractionShift (left : Nat) (fs : Bytes) (dropped : Nat) : Int :=
  left - (fs.length - dropped : Nat)

/-- A fraction is gone over. -/
theorem afterWhole_fraction {negative : Bool} (whole left : Nat) {fs rest : Bytes}
    (hfs : Digits fs) (hrest : NoDigit rest) :
    afterWhole negative whole left (0x2E :: (fs ++ rest))
      = afterFraction negative (gather whole fs).1 (fractionShift left fs (gather whole fs).2)
        rest := by
  obtain ⟨htake, hdrop⟩ := takeWhile_digits hfs.isDigit hrest
  rw [afterWhole, if_pos rfl]
  simp only [htake, hdrop, if_neg hfs.ne_nil]
  rfl

/-- A fraction, an exponent or both are gone over. -/
theorem settled_tail (negative : Bool) (whole left : Nat) {t : Bytes} (ht : NumeralTail t) :
    Settled fun rest => afterWhole negative whole left (t ++ rest) := by
  cases ht with
  | none => exact settled_afterWhole whole left
  | @fraction fs hfs =>
      obtain ⟨o, ho⟩ := settled_afterFraction negative (gather whole fs).1
        (fractionShift left fs (gather whole fs).2)
      refine ⟨o, fun rest h => ?_⟩
      rw [← ho rest h, ← afterWhole_fraction whole left hfs h.noDigit]
      rfl
  | @exponent sign es hsign hes => exact settled_exponentPart negative whole left hsign hes
  | @both sign fs es hfs hsign hes =>
      obtain ⟨o, ho⟩ := settled_exponentPart negative (gather whole fs).1
        (fractionShift left fs (gather whole fs).2) hsign hes
      refine ⟨o, fun rest h => ?_⟩
      have hstop : NoDigit (0x65 :: sign :: (es ++ rest)) := fun b hb => by
        cases hb
        rfl
      rw [← ho rest h]
      show (afterWhole negative whole left
        (0x2E :: (fs ++ 0x65 :: sign :: es ++ rest))).toOption = _
      rw [List.append_assoc]
      show (afterWhole negative whole left
        (0x2E :: (fs ++ 0x65 :: sign :: (es ++ rest)))).toOption = _
      rw [afterWhole_fraction whole left hfs hstop]
      rfl

/-- Digits without a zero in front are gone over. -/
theorem numberBody_digits {negative : Bool} {ds rest : Bytes} (hds : Digits ds)
    (hzero : ds.head? = some 0x30 → ds = [0x30]) (hrest : NoDigit rest) :
    numberBody negative (ds ++ rest)
      = afterWhole negative (gather 0 ds).1 (gather 0 ds).2 rest := by
  obtain ⟨b, more, rfl⟩ := List.exists_cons_of_ne_nil hds.ne_nil
  have hb := hds.isDigit b List.mem_cons_self
  rw [List.cons_append, numberBody, if_pos hb]
  by_cases hlead : b = 0x30
  · subst hlead
    obtain rfl : more = [] := (List.cons.inj (hzero rfl)).2
    rw [if_pos rfl, List.nil_append]
    have hnext : (rest.head?.map isDigit).getD false = false := by
      cases hr : rest.head? with
      | none => rfl
      | some c => exact hrest c hr
    rw [hnext]
    rfl
  · obtain ⟨htake, hdrop⟩ := takeWhile_digits
      (fun c hc => hds.isDigit c (List.mem_cons_of_mem _ hc)) hrest
    rw [if_neg hlead, htake, hdrop]

/-- A numeral is read from after its sign. -/
theorem settled_numberBody (negative : Bool) {ds t : Bytes} (hds : Digits ds)
    (ht : NumeralTail t) : Settled fun rest => numberBody negative (ds ++ t ++ rest) := by
  by_cases hzero : ds.head? = some 0x30 → ds = [0x30]
  · obtain ⟨o, ho⟩ := settled_tail negative (gather 0 ds).1 (gather 0 ds).2 ht
    refine ⟨o, fun rest h => ?_⟩
    rw [← ho rest h]
    show (numberBody negative (ds ++ t ++ rest)).toOption = _
    rw [List.append_assoc, numberBody_digits hds hzero (ht.noDigit h)]
  · -- a zero in front of other digits
    refine ⟨none, fun rest _ => ?_⟩
    obtain ⟨b, more, rfl⟩ := List.exists_cons_of_ne_nil hds.ne_nil
    have hb : b = 0x30 := Decidable.byContradiction fun h =>
      hzero fun heq => absurd (Option.some.inj heq) h
    have hmore : more ≠ [] := fun h => hzero fun _ => by rw [hb, h]
    obtain ⟨c, more, rfl⟩ := List.exists_cons_of_ne_nil hmore
    have hc : isDigit c = true := hds.isDigit c (by simp)
    subst hb
    show (numberBody negative (0x30 :: c :: (more ++ t ++ rest))).toOption = none
    have hdigit : isDigit 0x30 = true := rfl
    simp [numberBody, hdigit, hc, failNext, Except.toOption]

/-- A digit begins a number. -/
theorem scalar_digit {b : UInt8} (hb : isDigit b = true) (rest : Bytes) :
    scalar (b :: rest) = numberBody false (b :: rest) := by
  unfold scalar
  split
  next h => cases h
  next b' rest' h =>
    obtain ⟨rfl, rfl⟩ := List.cons.inj h
    split
    · cases hb
    · cases hb
    · cases hb
    · cases hb
    · cases hb
    · exact if_pos hb

/-- A numeral is read as something of its own. -/
theorem reads_numeral {t : Bytes} (ht : Numeral t) : ∃ o, Reads scalar t o := by
  cases ht with
  | @positive ds t hds ht =>
      obtain ⟨o, ho⟩ := settled_numberBody false hds ht
      refine ⟨o, fun rest h => ?_⟩
      rw [← ho rest h]
      obtain ⟨b, more, rfl⟩ := List.exists_cons_of_ne_nil hds.ne_nil
      exact congrArg Except.toOption (scalar_digit (hds.isDigit b List.mem_cons_self) _)
  | @negative ds t hds ht => exact settled_numberBody true hds ht

-- ================================================ how numbers are written

/-- Text that is a number without its sign. -/
def Unsigned (t : Bytes) : Prop := ∃ ds rest, t = ds ++ rest ∧ Digits ds ∧ NumeralTail rest

theorem Unsigned.point {a b : List Char} (ha : a ≠ []) (hb : b ≠ [])
    (hda : ∀ c ∈ a, c.isDigit = true) (hdb : ∀ c ∈ b, c.isDigit = true) :
    Unsigned (bytes (a ++ '.' :: b)) :=
  ⟨bytes a, 0x2E :: bytes b, Utf8.bytes_append .., digits_bytes ha hda,
    .fraction (digits_bytes hb hdb)⟩

/-- Digits and an exponent. -/
theorem unsigned_exponentChars {digits : List Char} (hne : digits ≠ [])
    (hd : ∀ c ∈ digits, c.isDigit = true) (lead : Int) :
    Unsigned (bytes (digits.take 1 ++ (if digits.length ≤ 1 then [] else '.' :: digits.drop 1)
      ++ ['e', if lead < 0 then '-' else '+'] ++ natChars lead.natAbs)) := by
  have hpos : 0 < digits.length := List.length_pos_iff.2 hne
  have hfirst : Digits (bytes (digits.take 1)) := by
    refine digits_bytes ?_ fun c hc => hd c (List.mem_of_mem_take hc)
    exact List.ne_nil_of_length_pos (by rw [List.length_take]; omega)
  have hexponent := digits_natChars lead.natAbs
  obtain ⟨sign, hsign, hbyte⟩ : ∃ sign : UInt8, (sign = 0x2B ∨ sign = 0x2D) ∧
      String.utf8EncodeChar (if lead < 0 then '-' else '+') = [sign] := by
    split
    · exact ⟨0x2D, .inr rfl, rfl⟩
    · exact ⟨0x2B, .inl rfl, rfl⟩
  have he : bytes ['e', if lead < 0 then '-' else '+'] = [0x65, sign] := by
    rw [Utf8.bytes_cons, Utf8.bytes_cons, hbyte]
    rfl
  simp only [Utf8.bytes_append, he]
  split
  · refine ⟨_, _, ?_, hfirst, .exponent hsign hexponent⟩
    simp [Utf8.bytes]
  · have hrest : Digits (bytes (digits.drop 1)) := by
      refine digits_bytes ?_ fun c hc => hd c (List.mem_of_mem_drop hc)
      exact List.ne_nil_of_length_pos (by rw [List.length_drop]; omega)
    refine ⟨_, _, ?_, hfirst, .both hrest hsign hexponent⟩
    have hpoint : bytes ('.' :: digits.drop 1) = 0x2E :: bytes (digits.drop 1) := rfl
    rw [hpoint]
    simp

/-- A decimal is written as a number. -/
theorem unsigned_decimalChars {digits : List Char} (hne : digits ≠ [])
    (hd : ∀ c ∈ digits, c.isDigit = true) (lead : Int) :
    Unsigned (bytes (decimalChars digits lead)) := by
  have hzeros : ∀ (n : Nat), ∀ c ∈ List.replicate n '0', c.isDigit = true := by
    intro n c hc
    rw [(List.mem_replicate.1 hc).2]
    rfl
  have happend : ∀ a b : List Char, (∀ c ∈ a, c.isDigit = true) →
      (∀ c ∈ b, c.isDigit = true) → ∀ c ∈ a ++ b, c.isDigit = true := by
    intro a b ha hb c hc
    rcases List.mem_append.1 hc with hc | hc
    · exact ha c hc
    · exact hb c hc
  have hpos : 0 < digits.length := List.length_pos_iff.2 hne
  unfold decimalChars
  split
  · simp only
    split
    · -- a whole number, and a fraction that is zero
      have heq : digits ++ List.replicate (lead.toNat + 1 - digits.length) '0' ++ ['.', '0']
          = (digits ++ List.replicate (lead.toNat + 1 - digits.length) '0') ++ '.' :: ['0'] :=
        rfl
      rw [heq]
      exact .point (by simp [hne]) (by simp) (happend _ _ hd (hzeros _)) (hzeros 1)
    next hlong =>
      -- the point falls among the digits
      refine .point ?_ ?_ (fun c hc => hd c (List.mem_of_mem_take hc))
        fun c hc => hd c (List.mem_of_mem_drop hc)
      · exact List.ne_nil_of_length_pos (by rw [List.length_take]; omega)
      · exact List.ne_nil_of_length_pos (by rw [List.length_drop]; omega)
  · split
    · -- zeros before the digits
      have heq : ['0', '.'] ++ List.replicate ((-lead).toNat - 1) '0' ++ digits
          = ['0'] ++ '.' :: (List.replicate ((-lead).toNat - 1) '0' ++ digits) := by simp
      rw [heq]
      exact .point (by simp) (by simp [hne]) (hzeros 1) (happend _ _ (hzeros _) hd)
    · exact unsigned_exponentChars hne hd lead

theorem numeral_floatChars (x : Binary64) : Numeral (bytes (floatChars x)) := by
  have hsize : ∀ d : Binary64.Decimal, Unsigned (bytes
      (if d.digits = 0 then ['0', '.', '0']
        else decimalChars (natChars d.digits)
          (d.exponent + ((natChars d.digits).length - 1 : Nat)))) := by
    intro d
    split
    · exact ⟨[0x30], [0x2E, 0x30], rfl, digits_natChars 0, .fraction (digits_natChars 0)⟩
    · exact unsigned_decimalChars (natChars_ne_nil _) isDigit_of_mem_natChars _
  obtain ⟨ds, rest, heq, hds, hrest⟩ := hsize x.shortest
  unfold floatChars
  simp only
  split
  · rw [Utf8.bytes_cons, heq]
    show Numeral (0x2D :: (ds ++ rest))
    exact .negative hds hrest
  · rw [heq]
    exact .positive hds hrest

theorem numeral_intChars (n : Int) : Numeral (bytes (intChars n)) := by
  cases n with
  | ofNat m =>
      have h := Numeral.positive (digits_natChars m) .none
      rwa [List.append_nil] at h
  | negSucc m =>
      have h := Numeral.negative (digits_natChars (m + 1)) .none
      rwa [List.append_nil] at h

-- =========================================================== whole numbers

/-- The whole numbers of 64 bits, with a sign or without. -/
def IsWhole (n : Int) : Prop := -0x8000000000000000 ≤ n ∧ n < 0x10000000000000000

instance (n : Int) : Decidable (IsWhole n) :=
  inferInstanceAs (Decidable (-0x8000000000000000 ≤ n ∧ n < 0x10000000000000000))

/-- A zero in front of a number is the number. -/
theorem head?_natChars_zero (n : Nat) :
    (bytes (natChars n)).head? = some 0x30 → bytes (natChars n) = [0x30] := by
  intro h
  rcases Nat.eq_zero_or_pos n with rfl | hn
  · rfl
  · exact absurd h (head?_natChars hn)

theorem wholeNumber_ofNat (m : Nat) :
    wholeNumber false m = if IsWhole (.ofNat m) then some (.ofNat m) else none := by
  rw [wholeNumber, if_neg Bool.false_ne_true]
  unfold gatherLimit
  by_cases hm : m ≤ 0xFFFFFFFFFFFFFFFF
  · have hn : IsWhole (.ofNat m) := by
      show -0x8000000000000000 ≤ (m : Int) ∧ (m : Int) < 0x10000000000000000
      omega
    rw [if_pos hm, if_pos hn]
    rfl
  · have hn : ¬ IsWhole (.ofNat m) := fun h => by
      have hlt : (m : Int) < 0x10000000000000000 := h.2
      omega
    rw [if_neg hm, if_neg hn]

theorem wholeNumber_negSucc (m : Nat) :
    wholeNumber true (m + 1) = if IsWhole (.negSucc m) then some (.negSucc m) else none := by
  rw [wholeNumber, if_pos rfl]
  by_cases hm : m + 1 ≤ 0x8000000000000000
  · have hn : IsWhole (.negSucc m) := by
      unfold IsWhole
      omega
    rw [if_pos ⟨Nat.succ_pos m, hm⟩, if_pos hn]
    rfl
  · have hn : ¬ IsWhole (.negSucc m) := by
      unfold IsWhole
      omega
    rw [if_neg (fun h => hm h.2), if_neg hn]

/-- The digits of a number that are gathered, and how many are left out. -/
def gathered (n : Nat) : Nat × Nat := gather 0 (bytes (natChars n))

/-- The double-precision number that is made of the digits of a whole number. -/
def ofDigits (n : Int) : Option Binary64 :=
  Binary64.ofParts (n < 0) (gathered n.natAbs).1 (gathered n.natAbs).2

/-- The digits of a number past the limit of what is kept are left out, so it is
none of 64 bits. -/
theorem wholeNumber_gathered {negative : Bool} {m : Nat} :
    (if (gathered m).2 = 0 then wholeNumber negative (gathered m).1 else none)
      = wholeNumber negative m := by
  have hvalue := digitsValue_natChars m
  unfold gathered
  by_cases hm : m ≤ gatherLimit
  · rw [gather_of_le _ (hvalue.symm ▸ hm), hvalue, if_pos rfl]
  · rw [if_neg (gather_of_lt _ (Nat.zero_le _) (hvalue.symm ▸ Nat.lt_of_not_le hm))]
    unfold wholeNumber
    unfold gatherLimit at hm ⊢
    split
    · rw [if_neg (by omega)]
    · rfl

/-- A whole number of 64 bits is read as itself, any other as the
double-precision number that is made of its digits, if there is one. -/
theorem reads_intChars (n : Int) :
    Reads scalar (bytes (intChars n))
      (if IsWhole n then some (.int n) else (ofDigits n).map .float) := by
  intro rest h
  have hbody : ∀ (negative : Bool) (m : Nat), numberBody negative (bytes (natChars m) ++ rest)
      = afterWhole.ofWhole negative (gathered m).1 (gathered m).2 rest := fun negative m => by
    rw [numberBody_digits (digits_natChars m) (head?_natChars_zero m) h.noDigit,
      afterWhole_of_closed h]
    rfl
  cases n with
  | ofNat m =>
      have hds := digits_natChars m
      have hfirst : scalar (bytes (natChars m) ++ rest)
          = numberBody false (bytes (natChars m) ++ rest) := by
        obtain ⟨b, more, hbs⟩ := List.exists_cons_of_ne_nil hds.ne_nil
        rw [hbs]
        exact scalar_digit (hds.isDigit b (by rw [hbs]; exact List.mem_cons_self)) _
      have hsign : decide (Int.ofNat m < 0) = false := decide_eq_false (by simp)
      show (scalar (bytes (natChars m) ++ rest)).toOption = _
      rw [hfirst, hbody, afterWhole.ofWhole, wholeNumber_gathered, wholeNumber_ofNat, ofDigits,
        hsign]
      by_cases hn : IsWhole (.ofNat m)
      · rw [if_pos hn, if_pos hn]
        rfl
      · rw [if_neg hn, if_neg hn]
        exact toOption_decimal ..
  | negSucc m =>
      have hsign : decide (Int.negSucc m < 0) = true := decide_eq_true (by omega)
      show (numberBody true (bytes (natChars (m + 1)) ++ rest)).toOption = _
      rw [hbody, afterWhole.ofWhole, wholeNumber_gathered, wholeNumber_negSucc, ofDigits, hsign]
      by_cases hn : IsWhole (.negSucc m)
      · rw [if_pos hn, if_pos hn]
        rfl
      · rw [if_neg hn, if_neg hn]
        exact toOption_decimal ..

end TransformCache.Json
