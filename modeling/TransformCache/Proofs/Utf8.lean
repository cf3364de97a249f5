/-
UTF-8 as it is written is read back.

The bytes of one character lead the reader through its states to that
character (`spells_encodeChar`); whole texts follow by going over their
characters. The four lengths of a character are four ways through the machine,
and each bound that a state holds is one that the bits of a character keep.
-/
import TransformCache.Text.Utf8

namespace TransformCache.Utf8

-- ====================================================== characters as bytes

def bytes (cs : List Char) : Bytes := cs.flatMap String.utf8EncodeChar

theorem encode_ofList (cs : List Char) : encode (String.ofList cs) = bytes cs := by
  unfold encode bytes
  rw [String.toList_ofList]

theorem bytes_cons (c : Char) (cs : List Char) :
    bytes (c :: cs) = String.utf8EncodeChar c ++ bytes cs := rfl

theorem bytes_append (a b : List Char) : bytes (a ++ b) = bytes a ++ bytes b :=
  List.flatMap_append

theorem encode_append (a b : String) : encode (a ++ b) = encode a ++ encode b := by
  unfold encode
  rw [String.toList_append, List.flatMap_append]

/-- A character below 128 is one byte. -/
theorem encodeChar_ascii {c : Char} (h : c.toNat < 128) :
    String.utf8EncodeChar c = [UInt8.ofNat c.toNat] := by
  unfold String.utf8EncodeChar
  exact if_pos (Nat.le_of_lt_succ h)

-- ====================================================== bytes as numbers

/-- What a first byte does, by its number. -/
theorem first_ofNat {n : Nat} (h : n < 256) :
    first (UInt8.ofNat n) =
      if n < 0x80 then .char (Char.ofNat n)
      else if n < 0xC2 then .refuse
      else if n < 0xE0 then .more (.inside 0 0x80 0xBF (n - 0xC0))
      else if n = 0xE0 then .more (.inside 1 0xA0 0xBF 0)
      else if n = 0xED then .more (.inside 1 0x80 0x9F 0xD)
      else if n < 0xF0 then .more (.inside 1 0x80 0xBF (n - 0xE0))
      else if n = 0xF0 then .more (.inside 2 0x90 0xBF 0)
      else if n < 0xF4 then .more (.inside 2 0x80 0xBF (n - 0xF0))
      else if n = 0xF4 then .more (.inside 2 0x80 0x8F 4)
      else .refuse := by
  have hn : (UInt8.ofNat n).toNat = n := UInt8.toNat_ofNat_of_lt' h
  unfold first
  simp only [UInt8.lt_iff_toNat_lt, ← UInt8.toNat_inj, hn]
  rfl

/-- The first of three bytes. It bounds the second where a value could be too
small for three bytes, or the half of a pair. -/
theorem first_three {n : Nat} (h : n < 16) :
    State.between.accept (UInt8.ofNat (n + 0xE0))
      = .more (.inside 1 (if n = 0 then 0xA0 else 0x80) (if n = 0xD then 0x9F else 0xBF) n) := by
  show first _ = _
  rw [first_ofNat (by omega), if_neg (by omega), if_neg (by omega), if_neg (by omega)]
  by_cases hzero : n = 0
  · subst hzero
    rfl
  · rw [if_neg (by omega), if_neg hzero]
    by_cases hpair : n = 0xD
    · subst hpair
      rfl
    · rw [if_neg (by omega), if_pos (by omega), if_neg hpair, Nat.add_sub_cancel]

/-- The first of four bytes. It bounds the second where a value could be too
small for four bytes, or past the last character. -/
theorem first_four {n : Nat} (h : n < 5) :
    State.between.accept (UInt8.ofNat (n + 0xF0))
      = .more (.inside 2 (if n = 0 then 0x90 else 0x80) (if n = 4 then 0x8F else 0xBF) n) := by
  match n, h with
  | 0, _ => rfl
  | 1, _ => rfl
  | 2, _ => rfl
  | 3, _ => rfl
  | 4, _ => rfl

/-- What a byte within the bounds of a state does. -/
theorem accept_inside {low high : UInt8} {n : Nat} (hn : n < 256) (hlow : low.toNat ≤ n)
    (hhigh : n ≤ high.toNat) (owed value : Nat) :
    (State.inside owed low high value).accept (UInt8.ofNat n) =
      match owed with
      | 0 => .char (Char.ofNat (value * 64 + (n - 0x80)))
      | owed + 1 => .more (.inside owed 0x80 0xBF (value * 64 + (n - 0x80))) := by
  have hbyte : (UInt8.ofNat n).toNat = n := UInt8.toNat_ofNat_of_lt' hn
  have hwithin : low ≤ UInt8.ofNat n ∧ UInt8.ofNat n ≤ high := by
    rw [UInt8.le_iff_toNat_le, UInt8.le_iff_toNat_le, hbyte]
    exact ⟨hlow, hhigh⟩
  cases owed with
  | zero => simp only [State.accept, if_pos hwithin, hbyte]
  | succ owed => simp only [State.accept, if_pos hwithin, hbyte]

-- ====================================================== one character

/-- The bytes lead from a state to a character, and it ends with the last of
them. -/
inductive Spells : State → Bytes → Char → Prop
  | char {state : State} {b : UInt8} {c : Char} (h : state.accept b = .char c) :
      Spells state [b] c
  | more {state next : State} {b : UInt8} {bytes : Bytes} {c : Char}
      (h : state.accept b = .more next) (hnext : Spells next bytes c) :
      Spells state (b :: bytes) c

private theorem spells_last (value v : Nat) (hv : value * 64 ≤ v) (hv' : v < value * 64 + 64) :
    Spells (.inside 0 0x80 0xBF value) [UInt8.ofNat (v % 0x40 + 0x80)] (Char.ofNat v) := by
  refine .char ?_
  rw [accept_inside (by omega) (show 0x80 ≤ _ by omega) (show _ ≤ 0xBF by omega)]
  have hsum : value * 64 + (v % 0x40 + 0x80 - 0x80) = v := by omega
  simp only [hsum]

/-- The last two bytes of a character; the bounds are those of its first. -/
private theorem spells_two {low high : UInt8} (value v : Nat) (hv : value = v / 4096)
    (hlow : low.toNat ≤ v / 64 % 0x40 + 0x80) (hhigh : v / 64 % 0x40 + 0x80 ≤ high.toNat) :
    Spells (.inside 1 low high value)
      [UInt8.ofNat (v / 64 % 0x40 + 0x80), UInt8.ofNat (v % 0x40 + 0x80)]
      (Char.ofNat v) := by
  refine .more (accept_inside (by omega) hlow hhigh 1 value) ?_
  exact spells_last _ v (by omega) (by omega)

/-- The last three bytes of a character. -/
private theorem spells_three {low high : UInt8} (value v : Nat) (hv : value = v / 262144)
    (hlow : low.toNat ≤ v / 4096 % 0x40 + 0x80)
    (hhigh : v / 4096 % 0x40 + 0x80 ≤ high.toNat) :
    Spells (.inside 2 low high value)
      [UInt8.ofNat (v / 4096 % 0x40 + 0x80), UInt8.ofNat (v / 64 % 0x40 + 0x80),
        UInt8.ofNat (v % 0x40 + 0x80)]
      (Char.ofNat v) := by
  refine .more (accept_inside (by omega) hlow hhigh 2 value) ?_
  exact spells_two _ v (by omega) (show 0x80 ≤ _ by omega) (show _ ≤ 0xBF by omega)

theorem spells_encodeChar (c : Char) : Spells .between (String.utf8EncodeChar c) c := by
  have hvalid : c.val.toNat < 0xD800 ∨ 0xDFFF < c.val.toNat ∧ c.val.toNat < 0x110000 := c.valid
  have hc : Char.ofNat c.val.toNat = c := Char.ofNat_toNat c
  unfold String.utf8EncodeChar
  generalize c.val.toNat = v at hvalid hc ⊢
  subst hc
  simp only
  split
  · -- one byte
    refine .char ?_
    show first _ = _
    rw [first_ofNat (by omega), if_pos (by omega)]
  · split
    · -- two
      refine .more ?_ (spells_last (v / 64) v (by omega) (by omega))
      show first _ = _
      have hsub : v / 64 % 0x20 + 0xC0 - 0xC0 = v / 64 := by omega
      rw [first_ofNat (by omega), if_neg (by omega), if_neg (by omega), if_pos (by omega), hsub]
    · split
      · -- three
        refine .more (first_three (by omega)) (spells_two _ v (by omega) ?_ ?_)
        · split
          · show 0xA0 ≤ _
            omega
          · show 0x80 ≤ _
            omega
        · split
          · show _ ≤ 0x9F
            omega
          · show _ ≤ 0xBF
            omega
      · -- four
        refine .more (first_four (by omega)) (spells_three _ v (by omega) ?_ ?_)
        · split
          · show 0x90 ≤ _
            omega
          · show 0x80 ≤ _
            omega
        · split
          · show _ ≤ 0x8F
            omega
          · show _ ≤ 0xBF
            omega

-- ====================================================== whole texts

/-- What spells a character is read as that character. -/
theorem decodeFrom_spells {state : State} {bytes : Bytes} {c : Char}
    (h : Spells state bytes c) (rest : Bytes) :
    ∀ start width, ∃ start',
      decodeFrom state start width (bytes ++ rest)
        = (c :: ·) <$> decodeFrom .between start' 0 rest := by
  induction h with
  | char h =>
      intro start width
      refine ⟨start + width + 1, ?_⟩
      rw [List.singleton_append, decodeFrom, h]
  | more h _ ih =>
      intro start width
      obtain ⟨start', hrest⟩ := ih start (width + 1)
      refine ⟨start', ?_⟩
      rw [List.cons_append, decodeFrom, h]
      exact hrest

/-- Characters that are written are read back, wherever they stand. -/
theorem decodeFrom_encode (cs : List Char) :
    ∀ start, decodeFrom .between start 0 (bytes cs) = .ok cs := by
  induction cs with
  | nil => intro start; rfl
  | cons c rest ih =>
      intro start
      obtain ⟨start', h⟩ := decodeFrom_spells (spells_encodeChar c)
        (bytes rest) start 0
      rw [bytes_cons, h, ih start']
      rfl

/-- Where there is nothing to forgive, forgiving reading is reading. -/
theorem decodeLossyFrom_of_decodeFrom {source : Bytes} {cs : List Char} :
    ∀ {state : State} {start width : Nat}, decodeFrom state start width source = .ok cs →
      decodeLossyFrom state source = cs := by
  induction source generalizing cs with
  | nil =>
      intro state start width h
      cases state with
      | between => cases h; rfl
      | inside => cases h
  | cons b rest ih =>
      intro state start width h
      rw [decodeFrom] at h
      unfold decodeLossyFrom
      cases hstep : state.accept b with
      | refuse => rw [hstep] at h; cases h
      | more next =>
          rw [hstep] at h
          exact ih h
      | char c =>
          rw [hstep] at h
          simp only at h
          cases hrest : decodeFrom .between (start + width + 1) 0 rest with
          | error fault => rw [hrest] at h; cases h
          | ok more =>
              rw [hrest] at h
              cases h
              exact congrArg (c :: ·) (ih hrest)

theorem decodeLossy_of_decode? {source : Bytes} {text : String}
    (h : decode? source = some text) : decodeLossy source = text := by
  unfold decode? decode at h
  unfold decodeLossy
  cases hd : decodeFrom .between 0 0 source with
  | error fault => rw [hd] at h; cases h
  | ok cs =>
      rw [hd] at h
      cases h
      rw [decodeLossyFrom_of_decodeFrom hd]

theorem decode?_encode (text : String) : decode? (encode text) = some text := by
  unfold decode? decode
  rw [show encode text = bytes text.toList from rfl, decodeFrom_encode]
  show some (String.ofList text.toList) = some text
  rw [String.ofList_toList]

/-- Texts with the same bytes are the same. -/
theorem encode_injective {a b : String} (h : encode a = encode b) : a = b := by
  have hdecode := decode?_encode a
  rw [h, decode?_encode] at hdecode
  exact (Option.some.inj hdecode).symm

end TransformCache.Utf8
