/-
What forgiving reading keeps of the bytes.

No bytes but its own spell a character (`Spells.eq_encodeChar`): the bounds of
the second byte rule out the longer forms of a short value, and what the reader
has read since it was between characters is no character yet, but leads to one
(`LeadsTo`). So bytes that are a text are that text's bytes (`decode?_eq_some_iff`).

Forgiving reading cuts any bytes into pieces, one for each character it gives
(`exists_pieces`). A piece is what its character is written as, unless the
character is the replacement. Bytes that are read as one text can therefore
differ in such pieces only.
-/
import TransformCache.Proofs.Utf8
import TransformCache.Proofs.Result
import Mathlib.Data.List.Forall2

namespace TransformCache.Utf8

-- =================================================== the bytes of a character

theorem eq_ofNat {b : UInt8} {n : Nat} (h : b.toNat = n) : b = UInt8.ofNat n := by
  rw [← h, UInt8.ofNat_toNat]

/-- How a character is written, by its number. -/
theorem encodeChar_ofNat {v : Nat} (hv : v < 0xD800 ∨ 0xDFFF < v ∧ v < 0x110000) :
    String.utf8EncodeChar (Char.ofNat v) =
      if v ≤ 0x7F then [UInt8.ofNat v]
      else if v ≤ 0x7FF then
        [UInt8.ofNat (v / 64 % 0x20 + 0xC0), UInt8.ofNat (v % 0x40 + 0x80)]
      else if v ≤ 0xFFFF then
        [UInt8.ofNat (v / 4096 % 0x10 + 0xE0), UInt8.ofNat (v / 64 % 0x40 + 0x80),
          UInt8.ofNat (v % 0x40 + 0x80)]
      else
        [UInt8.ofNat (v / 262144 % 0x08 + 0xF0), UInt8.ofNat (v / 4096 % 0x40 + 0x80),
          UInt8.ofNat (v / 64 % 0x40 + 0x80), UInt8.ofNat (v % 0x40 + 0x80)] := by
  have hval : (Char.ofNat v).val.toNat = v := by
    rw [Char.ofNat, dif_pos hv]
    rfl
  unfold String.utf8EncodeChar
  simp only [hval]

/-- A first byte that is a character is below 128. -/
theorem first_eq_char {b : UInt8} {c : Char} (h : first b = .char c) :
    b.toNat < 0x80 ∧ c = Char.ofNat b.toNat := by
  rw [eq_ofNat (b := b) rfl, first_ofNat b.toNat_lt] at h
  simp only [ite_eq_iff, reduceCtorEq, and_false, or_false, Step.char.injEq] at h
  exact ⟨h.1, h.2.symm⟩

/-- The second byte of a character is bounded, above all where the value could
be too small for its length, the half of a pair, or past the last character. -/
structure Bounds (b low high : UInt8) : Prop where
  least : 0x80 ≤ low.toNat
  most : high.toNat ≤ 0xBF
  three : b.toNat = 0xE0 → 0xA0 ≤ low.toNat
  pair : b.toNat = 0xED → high.toNat ≤ 0x9F
  four : b.toNat = 0xF0 → 0x90 ≤ low.toNat
  last : b.toNat = 0xF4 → high.toNat ≤ 0x8F

/-- What a first byte leads to that is no character, by the length of the
character. -/
theorem first_eq_more {b : UInt8} {next : State} (h : first b = .more next) :
    ∃ owed low high value, next = .inside owed low high value ∧ Bounds b low high ∧
      (owed = 0 ∧ value + 0xC0 = b.toNat ∧ 0xC2 ≤ b.toNat ∧ b.toNat < 0xE0 ∨
        owed = 1 ∧ value + 0xE0 = b.toNat ∧ b.toNat < 0xF0 ∨
        owed = 2 ∧ value + 0xF0 = b.toNat ∧ b.toNat < 0xF5) := by
  have hbyte : b.toNat < 256 := b.toNat_lt
  rw [eq_ofNat (b := b) rfl, first_ofNat hbyte] at h
  simp only [ite_eq_iff, reduceCtorEq, and_false, or_false, false_or, Step.more.injEq] at h
  -- one case for each range of first bytes that is bounded in its own way
  obtain ⟨_, _, ⟨_, rfl⟩ | ⟨_, ⟨_, rfl⟩ | ⟨_, ⟨_, rfl⟩ | ⟨_, ⟨_, rfl⟩ | ⟨_, ⟨_, rfl⟩ |
    ⟨_, ⟨_, rfl⟩ | ⟨_, _, rfl⟩⟩⟩⟩⟩⟩⟩ := h
  all_goals
    refine ⟨_, _, _, _, rfl, ⟨?_, ?_, ?_, ?_, ?_, ?_⟩, by omega⟩
    all_goals simp only [UInt8.reduceToNat]
    all_goals omega

/-- A byte that a state inside a character takes is within its bounds. -/
theorem accept_inside_of_ne {owed value : Nat} {low high b : UInt8} {taken : Step}
    (h : (State.inside owed low high value).accept b = taken) (hne : taken ≠ .refuse) :
    low.toNat ≤ b.toNat ∧ b.toNat ≤ high.toNat ∧
      taken = match owed with
        | 0 => .char (Char.ofNat (value * 64 + (b.toNat - 0x80)))
        | owed + 1 => .more (.inside owed 0x80 0xBF (value * 64 + (b.toNat - 0x80))) := by
  unfold State.accept at h
  simp only at h
  split at h
  next hwithin =>
    refine ⟨UInt8.le_iff_toNat_le.1 hwithin.1, UInt8.le_iff_toNat_le.1 hwithin.2, ?_⟩
    cases owed with
    | zero => exact h.symm
    | succ owed => exact h.symm
  next => exact absurd h.symm hne

theorem Spells.inside {owed value : Nat} {low high : UInt8} {bs : Bytes} {c : Char}
    (h : Spells (.inside owed low high value) bs c) :
    ∃ b rest, bs = b :: rest ∧ low.toNat ≤ b.toNat ∧ b.toNat ≤ high.toNat ∧
      match owed with
      | 0 => rest = [] ∧ c = Char.ofNat (value * 64 + (b.toNat - 0x80))
      | owed + 1 =>
        Spells (.inside owed 0x80 0xBF (value * 64 + (b.toNat - 0x80))) rest c := by
  cases h with
  | @char _ b c h =>
      obtain ⟨hlow, hhigh, htaken⟩ := accept_inside_of_ne h Step.noConfusion
      refine ⟨b, [], rfl, hlow, hhigh, ?_⟩
      cases owed with
      | zero => exact ⟨rfl, Step.char.inj htaken⟩
      | succ owed => cases htaken
  | @more _ next b rest c h hnext =>
      obtain ⟨hlow, hhigh, htaken⟩ := accept_inside_of_ne h Step.noConfusion
      refine ⟨b, rest, rfl, hlow, hhigh, ?_⟩
      cases owed with
      | zero => cases htaken
      | succ owed => exact Step.more.inj htaken ▸ hnext

/-- Only the bytes that a character is written as spell it. -/
theorem Spells.eq_encodeChar {bs : Bytes} {c : Char} (h : Spells .between bs c) :
    bs = String.utf8EncodeChar c := by
  cases h with
  | char h =>
      obtain ⟨hsmall, rfl⟩ := first_eq_char h
      rw [encodeChar_ofNat (by omega), if_pos (by omega), UInt8.ofNat_toNat]
  | @more _ _ b _ _ h hnext =>
      obtain ⟨owed, low, high, value, rfl, hbounds, hlength⟩ := first_eq_more h
      obtain ⟨hleast, hmost, hthree, hpair, hfour, hlast⟩ := hbounds
      obtain ⟨b₂, rest, rfl, hlow, hhigh, hnext⟩ := hnext.inside
      rcases hlength with ⟨rfl, hvalue, hb⟩ | ⟨rfl, hvalue, hb⟩ | ⟨rfl, hvalue, hb⟩
      · -- two bytes
        obtain ⟨rfl, hc⟩ := hnext
        rw [hc, encodeChar_ofNat (by omega), if_neg (by omega), if_pos (by omega)]
        rw [← eq_ofNat (b := b) (by omega), ← eq_ofNat (b := b₂) (by omega)]
      · -- three
        obtain ⟨b₃, rest, rfl, hlow₃, hhigh₃, rfl, hc⟩ := hnext.inside
        simp only [UInt8.reduceToNat] at hlow₃ hhigh₃
        rw [hc, encodeChar_ofNat (by omega), if_neg (by omega), if_neg (by omega),
          if_pos (by omega)]
        rw [← eq_ofNat (b := b) (by omega), ← eq_ofNat (b := b₂) (by omega),
          ← eq_ofNat (b := b₃) (by omega)]
      · -- four
        obtain ⟨b₃, rest, rfl, hlow₃, hhigh₃, hnext⟩ := hnext.inside
        obtain ⟨b₄, rest, rfl, hlow₄, hhigh₄, rfl, hc⟩ := hnext.inside
        simp only [UInt8.reduceToNat] at hlow₃ hhigh₃ hlow₄ hhigh₄
        rw [hc, encodeChar_ofNat (by omega), if_neg (by omega), if_neg (by omega),
          if_neg (by omega)]
        rw [← eq_ofNat (b := b) (by omega), ← eq_ofNat (b := b₂) (by omega),
          ← eq_ofNat (b := b₃) (by omega), ← eq_ofNat (b := b₄) (by omega)]

-- ========================================================= strict reading

/-- The bytes of a character that a reader has seen lead it to the state. -/
inductive LeadsTo : Bytes → State → Prop
  | between : LeadsTo [] .between
  | more {seen : Bytes} {state next : State} {b : UInt8} (h : LeadsTo seen state)
      (hb : state.accept b = .more next) : LeadsTo (seen ++ [b]) next

/-- What leads on leads into a character. -/
theorem ne_between_of_more {state next : State} {b : UInt8} (h : state.accept b = .more next) :
    next ≠ .between := by
  cases state with
  | between =>
      obtain ⟨owed, low, high, value, rfl, -⟩ := first_eq_more h
      exact State.noConfusion
  | inside owed low high value =>
      obtain ⟨-, -, htaken⟩ := accept_inside_of_ne h Step.noConfusion
      cases owed with
      | zero => cases htaken
      | succ owed =>
          rw [Step.more.inj htaken]
          exact State.noConfusion

variable {seen : Bytes} {state : State}

theorem LeadsTo.eq_nil (h : LeadsTo seen .between) : seen = [] := by
  cases h with
  | between => rfl
  | more _ hb => exact absurd rfl (ne_between_of_more hb)

/-- What spells a character from the state spells it with the bytes before. -/
theorem LeadsTo.spells (h : LeadsTo seen state) {bs : Bytes} {c : Char}
    (hbs : Spells state bs c) : Spells .between (seen ++ bs) c := by
  induction h generalizing bs with
  | between => exact hbs
  | more _ hb ih =>
      rw [List.append_assoc]
      exact ih (.more hb hbs)

/-- With the last byte of a character they are what it is written as. -/
theorem LeadsTo.eq_encodeChar (h : LeadsTo seen state) {b : UInt8} {c : Char}
    (hb : state.accept b = .char c) : seen ++ [b] = String.utf8EncodeChar c :=
  (h.spells (.char hb)).eq_encodeChar

/-- Bytes that are read without a fault are those of what is read. -/
theorem LeadsTo.eq_bytes {source : Bytes} {cs : List Char} {start width : Nat}
    (hseen : LeadsTo seen state) (h : decodeFrom state start width source = .ok cs) :
    seen ++ source = bytes cs := by
  induction source generalizing seen state start width cs with
  | nil =>
      cases state with
      | between =>
          cases h
          rw [hseen.eq_nil]
          rfl
      | inside => cases h
  | cons b rest ih =>
      rw [decodeFrom] at h
      rw [List.append_cons]
      cases hstep : state.accept b with
      | refuse => rw [hstep] at h; cases h
      | more next =>
          rw [hstep] at h
          exact ih (hseen.more hstep) h
      | char c =>
          rw [hstep] at h
          obtain ⟨more, hmore, rfl⟩ := map_eq_ok.1 h
          rw [hseen.eq_encodeChar hstep, bytes_cons, ← ih .between hmore, List.nil_append]

/-- Bytes hold a text just where they are the text's. -/
theorem decode?_eq_some_iff {source : Bytes} {text : String} :
    decode? source = some text ↔ source = encode text := by
  constructor
  · intro h
    unfold decode? decode at h
    cases hread : decodeFrom .between 0 0 source with
    | error fault => rw [hread] at h; cases h
    | ok cs =>
        rw [hread] at h
        cases h
        rw [encode_ofList]
        exact LeadsTo.between.eq_bytes hread
  · rintro rfl
    exact decode?_encode text

/-- A character that is not complete is no text. -/
theorem LeadsTo.decode? (h : LeadsTo seen state) (hstate : state ≠ .between) :
    Utf8.decode? seen = none := by
  have hreads : ∀ rest start width, ∃ start' width',
      decodeFrom .between start width (seen ++ rest) = decodeFrom state start' width' rest := by
    clear hstate
    induction h with
    | between => exact fun rest start width => ⟨start, width, rfl⟩
    | more _ hb ih =>
        intro rest start width
        obtain ⟨start', width', h⟩ := ih (_ :: rest) start width
        refine ⟨start', width' + 1, ?_⟩
        rw [List.append_assoc]
        rw [decodeFrom, hb] at h
        exact h
  obtain ⟨start', width', h⟩ := hreads [] 0 0
  rw [List.append_nil] at h
  unfold Utf8.decode? decode
  rw [h]
  cases state with
  | between => exact absurd rfl hstate
  | inside => rfl

-- ======================================================= forgiving reading

/-- A piece of the bytes and the character that it is read as: the one that it
writes, or the replacement if it writes none. -/
def Reads (piece : Bytes) (c : Char) : Prop :=
  piece = String.utf8EncodeChar c ∨ c = replacement ∧ Utf8.decode? piece = none

/-- A byte that cannot go on with a character ends it, and is read anew. -/
theorem decodeLossyFrom_refuse {owed value : Nat} {low high b : UInt8} {rest : Bytes}
    (h : (State.inside owed low high value).accept b = .refuse) :
    decodeLossyFrom (.inside owed low high value) (b :: rest)
      = replacement :: decodeLossyFrom .between (b :: rest) := by
  conv => lhs; rw [decodeLossyFrom, h]
  rfl

/-- Forgiving reading cuts the bytes into pieces. -/
theorem LeadsTo.exists_pieces (hseen : LeadsTo seen state) (source : Bytes) :
    ∃ pieces, seen ++ source = pieces.flatten ∧
      List.Forall₂ Reads pieces (decodeLossyFrom state source) := by
  induction source generalizing seen state with
  | nil =>
      cases state with
      | between => exact ⟨[], by rw [hseen.eq_nil]; rfl, .nil⟩
      | inside =>
          refine ⟨[seen], by simp, ?_⟩
          exact .cons (.inr ⟨rfl, hseen.decode? State.noConfusion⟩) .nil
  | cons b rest ih =>
      -- a byte that is refused between two characters is a piece of its own
      have htaken : ∀ {seen : Bytes} {state : State}, LeadsTo seen state →
          (state.accept b = .refuse → state = .between) →
          ∃ pieces, seen ++ b :: rest = pieces.flatten ∧
            List.Forall₂ Reads pieces (decodeLossyFrom state (b :: rest)) := by
        intro seen state hseen hrefuse
        rw [List.append_cons]
        unfold decodeLossyFrom
        cases hstep : state.accept b with
        | more next => exact ih (hseen.more hstep)
        | char c =>
            obtain ⟨pieces, hrest, hreads⟩ := ih .between
            refine ⟨(seen ++ [b]) :: pieces, ?_, .cons (.inl (hseen.eq_encodeChar hstep)) hreads⟩
            rw [List.flatten_cons, ← hrest, List.nil_append]
        | refuse =>
            obtain rfl := hrefuse hstep
            obtain ⟨pieces, hrest, hreads⟩ := ih .between
            have hnone : Utf8.decode? [b] = none := by
              unfold Utf8.decode? decode
              rw [decodeFrom, hstep]
              rfl
            refine ⟨[b] :: pieces, ?_, .cons (.inr ⟨rfl, hnone⟩) hreads⟩
            rw [List.flatten_cons, ← hrest, hseen.eq_nil]
            rfl
      cases state with
      | between => exact htaken hseen fun _ => rfl
      | inside owed low high value =>
          by_cases hrefuse : (State.inside owed low high value).accept b = .refuse
          · obtain ⟨pieces, hfresh, hreads⟩ := htaken .between fun _ => rfl
            rw [decodeLossyFrom_refuse hrefuse]
            refine ⟨seen :: pieces, ?_, .cons (.inr ⟨rfl, hseen.decode? State.noConfusion⟩) hreads⟩
            rw [List.flatten_cons, ← hfresh, List.nil_append]
          · exact htaken hseen fun h => absurd h hrefuse

-- =========================================== contents that read as one text

/-- What two contents have in one place, and the character they read as. -/
structure Stretch where
  left : Bytes
  right : Bytes
  char : Char

/-- Two contents read as one text and differ only in stretches that read as the
replacement, of which one at least is no text. -/
def DifferInReplaced (a b : Bytes) : Prop :=
  ∃ stretches : List Stretch,
    a = stretches.flatMap (·.left) ∧ b = stretches.flatMap (·.right) ∧
      decodeLossy a = String.ofList (stretches.map (·.char)) ∧
      decodeLossy b = String.ofList (stretches.map (·.char)) ∧
      ∀ s ∈ stretches, s.left ≠ s.right →
        s.char = replacement ∧ (decode? s.left = none ∨ decode? s.right = none)

/-- Pieces of two contents that read as the same characters, side by side. -/
theorem exists_stretches {left right : List Bytes} {cs : List Char}
    (hleft : List.Forall₂ Reads left cs) (hright : List.Forall₂ Reads right cs) :
    ∃ stretches : List Stretch,
      left.flatten = stretches.flatMap (·.left) ∧ right.flatten = stretches.flatMap (·.right) ∧
        cs = stretches.map (·.char) ∧
        ∀ s ∈ stretches, s.left ≠ s.right →
          s.char = replacement ∧ (decode? s.left = none ∨ decode? s.right = none) := by
  induction hleft generalizing right with
  | nil =>
      cases hright
      exact ⟨[], rfl, rfl, rfl, fun s hs => absurd hs List.not_mem_nil⟩
  | @cons piece c left cs hpiece _ ih =>
      obtain _ | ⟨hpiece', hright⟩ := hright
      next piece' right =>
      obtain ⟨stretches, hl, hr, hcs, hdiffer⟩ := ih hright
      refine ⟨⟨piece, piece', c⟩ :: stretches, ?_, ?_, ?_, ?_⟩
      · rw [List.flatten_cons, hl, List.flatMap_cons]
      · rw [List.flatten_cons, hr, List.flatMap_cons]
      · rw [hcs, List.map_cons]
      · intro s hs hne
        rcases List.mem_cons.1 hs with rfl | hs
        · rcases hpiece with hwritten | ⟨hc, hnone⟩
          · rcases hpiece' with hwritten' | ⟨hc, hnone⟩
            · exact absurd (hwritten.trans hwritten'.symm) hne
            · exact ⟨hc, .inr hnone⟩
          · exact ⟨hc, .inl hnone⟩
        · exact hdiffer s hs hne

/-- Contents that read as one text have the same number of pieces. -/
theorem differInReplaced {a b : Bytes} (h : decodeLossy a = decodeLossy b) :
    DifferInReplaced a b := by
  obtain ⟨left, hleft, hreads⟩ := LeadsTo.between.exists_pieces a
  obtain ⟨right, hright, hreads'⟩ := LeadsTo.between.exists_pieces b
  have hsame : decodeLossyFrom .between b = decodeLossyFrom .between a :=
    (String.ofList_inj.1 h).symm
  rw [hsame] at hreads'
  obtain ⟨stretches, hl, hr, hcs, hdiffer⟩ := exists_stretches hreads hreads'
  refine ⟨stretches, ?_, ?_, ?_, ?_, hdiffer⟩
  · rw [← hl, ← hleft, List.nil_append]
  · rw [← hr, ← hright, List.nil_append]
  · rw [← hcs]
    rfl
  · rw [← hcs, ← hsame]
    rfl

/-- Of two contents that read as one text, one at most is a text. -/
theorem decode?_eq_none_of_ne {a b : Bytes} (hne : a ≠ b) (h : decodeLossy a = decodeLossy b) :
    decode? a = none ∨ decode? b = none := by
  cases ha : decode? a with
  | none => exact .inl rfl
  | some text =>
      cases hb : decode? b with
      | none => exact .inr rfl
      | some text' =>
          rw [decodeLossy_of_decode? ha, decodeLossy_of_decode? hb] at h
          refine absurd ?_ hne
          rw [decode?_eq_some_iff.1 ha, decode?_eq_some_iff.1 hb, h]

end TransformCache.Utf8
