/-
Texts that hold texts are shorter and shorter.

A string takes more bytes to write than it has, if only for its quotes: what was
read of a text and what is left of it are no longer than the text together
(`Fits`, one lemma for each part that readers are made of). So a text that is
held by another one is shorter (`fits_heldText`).

Reading a value asks for the texts in it alone, so it does not matter what is
made of texts that are too long to be among them (`valueWith_congr`). Hence a
bound on the levels that is above the length of a text makes no difference to it
(`parseWithin_congr`), and the reader of whole texts is the reader of values that
reads the texts in them by itself (`parse_eq`).
-/
import TransformCache.Proofs.Json.Settle
import TransformCache.Proofs.Utf8.Replacement

namespace TransformCache.Json

variable {α β σ : Type}

-- ======================================================= what was read and left

/-- What was read, in its size, and what is left have room in `n`. -/
def Fits (n : Nat) (size : α → Nat) : Answer α → Prop :=
  Yields fun x rest => size x + rest.length ≤ n

/-- What is left has room in `n`, whatever was read. -/
def Leaves (n : Nat) : Answer α → Prop := Yields fun _ rest => rest.length ≤ n

section Parts

variable {n n' : Nat} {answer : Answer α}

theorem Leaves.mono (h : Leaves n answer) (hn : n ≤ n') : Leaves n' answer :=
  Yields.mono h fun _ _ hrest => Nat.le_trans hrest hn

theorem Fits.mono {size : α → Nat} (h : Fits n size answer) (hn : n ≤ n') :
    Fits n' size answer := Yields.mono h fun _ _ hx => Nat.le_trans hx hn

theorem Fits.leaves {size : α → Nat} (h : Fits n size answer) : Leaves n answer :=
  Yields.mono h fun _ _ hx => Nat.le_trans (Nat.le_add_left _ _) hx

theorem leaves_mapValue {f : α → β} (h : Leaves n answer) : Leaves n (mapValue f answer) :=
  yields_mapValue h fun _ _ hrest => hrest

end Parts

-- ============================================================ no containers

-- ---------------------------------------------------------------- strings

/-- How many bytes of an escape were read at least, without any byte made of them. -/
def StringState.ahead : StringState → Nat
  | .plain => 0
  | .escape => 1
  | .hex _ left _ => 5 - left
  | .afterHigh _ => 0
  | .afterHighBackslash _ => 1

/-- A string has a quote at its end, and what an escape stands for is shorter. -/
theorem fits_stringBytes (bytes : Bytes) :
    ∀ state, Fits (bytes.length + state.ahead) (fun found => found.length + 1)
      (stringBytes state bytes) := by
  induction bytes with
  | nil =>
      intro state
      rw [stringBytes]
      exact yields_error _
  | cons b rest ih =>
      have hlength : (b :: rest).length = rest.length + 1 := rfl
      have hgo : ∀ state next : StringState, next.ahead ≤ state.ahead + 1 →
          Fits ((b :: rest).length + state.ahead) (fun found => found.length + 1)
            (stringBytes next rest) := fun state next hnext => (ih next).mono (by omega)
      have hmade : ∀ (state : StringState) (made : Bytes), made.length ≤ state.ahead + 1 →
          Fits ((b :: rest).length + state.ahead) (fun found => found.length + 1)
            (mapValue (made ++ ·) (stringBytes .plain rest)) := fun state made hmade =>
        yields_mapValue (ih .plain) fun found left hk => by
          show (made ++ found).length + 1 + left.length ≤ _
          rw [List.length_append]
          simp only [StringState.ahead] at hk
          omega
      intro state
      unfold stringBytes
      cases state with
      | plain =>
          simp only
          split
          · exact yields_ok (by simp [StringState.ahead]; omega)
          · split
            · exact hgo _ _ (Nat.le_refl _)
            · split
              · exact yields_error _
              · exact hmade .plain [b] (Nat.le_refl _)
      | escape =>
          simp only
          split
          · exact hgo _ _ (Nat.le_refl _)
          · split
            · exact yields_error _
            next value _ => exact hmade .escape [value] (by simp [StringState.ahead])
      | hex high left value =>
          simp only
          split
          next left =>
            refine hgo _ _ ?_
            simp only [StringState.ahead]
            omega
          next =>
            split
            · exact yields_error _
            · split
              · exact yields_error _
              · exact hgo _ _ (Nat.zero_le _)
              next c _ =>
                refine hmade (.hex high 0 value) (String.utf8EncodeChar c) ?_
                rw [String.length_utf8EncodeChar]
                exact Nat.le_trans c.utf8Size_le_four (by simp [StringState.ahead])
      | afterHigh high =>
          simp only
          split
          · exact hgo _ _ (Nat.le_refl _)
          · exact yields_error _
      | afterHighBackslash high =>
          simp only
          split
          · exact hgo _ _ (Nat.le_refl _)
          · exact yields_error _

/-- A string is shorter than it is written. -/
theorem fits_stringBody (bytes : Bytes) :
    Fits bytes.length (fun text => (Utf8.encode text).length + 1) (stringBody bytes) := by
  refine yields_andThen (fits_stringBytes bytes .plain) fun found rest hrest => ?_
  split
  next text htext =>
    rw [Utf8.decode?_eq_some_iff.1 htext] at hrest
    exact yields_ok hrest
  next => exact yields_error _

-- ---------------------------------------------------------------- scalars

/-- The bytes of a text, and what is added to write it. -/
def textSize : Json → Nat
  | .string text => (Utf8.encode text).length + 1
  | _ => 0

theorem IsNumber.textSize_eq {x : Json} (h : x.IsNumber) : x.textSize = 0 := by
  cases x with
  | string text => exact h.elim
  | _ => rfl

theorem fits_scalar (bytes : Bytes) : Fits bytes.length textSize (scalar bytes) := by
  have hword : ∀ (x : Json) (expected rest : Bytes) (b : UInt8), x.textSize = 0 →
      Fits (b :: rest).length textSize (word x expected rest) := fun x expected rest b hx =>
    (yields_word x expected rest).mono fun y left hy => by
      rw [hy.1, hx, Nat.zero_add]
      exact Nat.le_succ_of_le hy.2
  have hnumber : ∀ (negative : Bool) (rest : Bytes) {n : Nat}, rest.length ≤ n →
      Fits n textSize (numberBody negative rest) := fun negative rest n hn =>
    (within_numberBody hn negative).mono fun x left hx => by
      rw [hx.1.textSize_eq, Nat.zero_add]
      exact hx.2
  unfold scalar
  split
  · exact yields_error _
  next b rest =>
    split
    · exact hword _ _ _ _ rfl
    · exact hword _ _ _ _ rfl
    · exact hword _ _ _ _ rfl
    · exact yields_mapValue (fits_stringBody rest) fun text k hk => Nat.le_trans hk (Nat.le_succ _)
    · exact hnumber _ _ (Nat.le_succ _)
    · split
      · exact hnumber _ _ (Nat.le_refl _)
      · exact yields_error _

-- ---------------------------------------------------------------- a text

theorem fits_stringOf (expected : String) (bytes : Bytes) :
    Fits bytes.length (fun text => (Utf8.encode text).length + 1) (stringOf expected bytes) := by
  unfold stringOf scalarOf
  simp only
  split
  · exact yields_error _
  · exact yields_error _
  · refine yields_andThen ((fits_scalar _).mono (length_skipBlanks_le bytes)) fun x rest hrest => ?_
    cases x with
    | string text => exact yields_ok hrest
    | _ => exact yields_error _

theorem leaves_member {m : MemberRule σ}
    (hmember : ∀ state key bytes, Leaves bytes.length (m.member state key bytes)) (state : σ)
    (bytes : Bytes) : Leaves bytes.length (member m state bytes) := by
  unfold member
  refine yields_andThen (fits_stringBody bytes).leaves fun key rest hrest => ?_
  split
  · exact yields_error _
  · have hskip := length_skipBlanks_le rest
    split
    · exact yields_error _
    next b after heq =>
      rw [heq] at hskip
      split
      · exact (hmember _ _ _).mono (Nat.le_trans (Nat.le_of_succ_le hskip) hrest)
      · exact yields_error _

/-- A text that is held by another one is shorter. -/
theorem fits_heldText (bytes : Bytes) :
    Fits bytes.length (fun text => (Utf8.encode text).length + 1)
      (member rawMember "" bytes) := by
  unfold member
  refine yields_andThen (fits_stringBody bytes).leaves fun key rest hrest => ?_
  simp only [rawMember]
  have hskip := length_skipBlanks_le rest
  split
  · exact yields_error _
  next b after heq =>
    rw [heq] at hskip
    split
    · exact (fits_stringOf _ _).mono (Nat.le_trans (Nat.le_of_succ_le hskip) hrest)
    · exact yields_error _

-- ---------------------------------------------------------------- containers

theorem length_cons_le {bytes after : Bytes} {b : UInt8} {n : Nat}
    (heq : skipBlanks bytes = b :: after) (h : bytes.length ≤ n) : after.length + 1 ≤ n := by
  have hskip := length_skipBlanks_le bytes
  rw [heq] at hskip
  exact Nat.le_trans hskip h

/-- What is left when it is clear what comes next. -/
def Upcoming.left : Upcoming → Bytes
  | .close left => left
  | .item left => left

theorem length_nextItem_le {first : Bool} {bytes : Bytes} {upcoming : Upcoming}
    (h : nextItem first bytes = .ok upcoming) : upcoming.left.length ≤ bytes.length := by
  unfold nextItem at h
  split at h
  · cases h
  next b after heq =>
    have hafter := length_cons_le heq (Nat.le_refl _)
    split at h
    · cases h
      exact Nat.le_of_succ_le hafter
    · split at h
      · cases h
        exact hafter
      · split at h
        · split at h
          · cases h
          next b last heq' =>
            split at h
            · cases h
            · cases h
              exact length_cons_le heq' (Nat.le_of_succ_le hafter)
        · cases h

theorem length_nextMember_le {first : Bool} {bytes : Bytes} {upcoming : Upcoming}
    (h : nextMember first bytes = .ok upcoming) : upcoming.left.length ≤ bytes.length := by
  unfold nextMember at h
  split at h
  · cases h
  next b after heq =>
    have hafter := Nat.le_of_succ_le (length_cons_le heq (Nat.le_refl _))
    split at h
    · cases h
      exact hafter
    · split at h
      · split at h
        · cases h
          exact hafter
        · cases h
      · split at h
        · split at h
          · cases h
          next b last heq' =>
            split at h
            · cases h
              exact Nat.le_of_succ_le (length_cons_le heq' hafter)
            · split at h
              · cases h
              · cases h
        · cases h

theorem leaves_items {item : Reader α} (hitem : ∀ bytes, Leaves bytes.length (item bytes))
    (rounds : Nat) : ∀ first bytes, Leaves bytes.length (items item rounds first bytes) := by
  induction rounds with
  | zero => exact fun first bytes => yields_error _
  | succ rounds ih =>
      intro first bytes
      rw [items_succ]
      cases hnext : nextItem first bytes with
      | error failure => exact yields_error _
      | ok upcoming =>
          have hleft := length_nextItem_le hnext
          cases upcoming with
          | close left => exact yields_ok hleft
          | item left =>
              exact Leaves.mono (yields_andThen (hitem left) fun x rest hrest =>
                leaves_mapValue ((ih false rest).mono hrest)) hleft

theorem leaves_members {m : MemberRule σ}
    (hmember : ∀ state key bytes, Leaves bytes.length (m.member state key bytes)) (rounds : Nat) :
    ∀ first state bytes, Leaves bytes.length (members m rounds first state bytes) := by
  induction rounds with
  | zero => exact fun first state bytes => yields_error _
  | succ rounds ih =>
      intro first state bytes
      rw [members_succ]
      cases hnext : nextMember first bytes with
      | error failure => exact yields_error _
      | ok upcoming =>
          have hleft := length_nextMember_le hnext
          cases upcoming with
          | close left => exact yields_ok hleft
          | item left =>
              exact Leaves.mono (yields_andThen (leaves_member hmember state left)
                fun after rest hrest => (ih false after rest).mono hrest) hleft

theorem leaves_collect {read : Reader α} (hread : ∀ bytes, Leaves bytes.length (read bytes))
    (rounds : Nat) (first : Bool) (pairs : List (String × α)) (bytes : Bytes) :
    Leaves bytes.length (members (collect read) rounds first pairs bytes) :=
  leaves_members (fun _ _ bytes => leaves_mapValue (hread bytes)) rounds first pairs bytes

section Inner

variable {inner inner' : String → Except Error Json} {n : Nat}

theorem leaves_rawObject (inner : String → Except Error Json) (bytes : Bytes) :
    Leaves bytes.length (rawObject inner bytes) := by
  have htail : (skipBlanks bytes).tail.length ≤ bytes.length := by
    rw [List.length_tail]
    exact Nat.le_trans (Nat.sub_le _ _) (length_skipBlanks_le bytes)
  refine yields_andThen ((fits_heldText _).leaves.mono htail) fun text rest hrest => ?_
  unfold heldBy
  split
  · exact yields_error _
  · refine leaves_mapValue ?_
    unfold lastBrace
    split
    · exact yields_error _
    next b after heq =>
      split
      · exact yields_ok (Nat.le_of_succ_le (length_cons_le heq hrest))
      · exact yields_error _

theorem leaves_valueWith (inner : String → Except Error Json) (depth : Nat) :
    ∀ bytes, Leaves bytes.length (valueWith inner depth bytes) := by
  have hscalar : ∀ bytes, Leaves bytes.length (scalar (skipBlanks bytes)) := fun bytes =>
    (fits_scalar _).leaves.mono (length_skipBlanks_le bytes)
  induction depth with
  | zero =>
      intro bytes
      unfold valueWith
      split
      · exact yields_error _
      · exact yields_error _
      · exact hscalar bytes
  | succ depth ih =>
      intro bytes
      unfold valueWith
      split
      next after heq =>
        exact leaves_mapValue ((leaves_items ih _ _ after).mono
          (Nat.le_of_succ_le (length_cons_le heq (Nat.le_refl _))))
      next after heq =>
        have hafter : after.length ≤ bytes.length :=
          Nat.le_of_succ_le (length_cons_le heq (Nat.le_refl _))
        split
        · exact (leaves_rawObject inner after).mono hafter
        · exact leaves_mapValue ((leaves_collect ih _ _ _ after).mono hafter)
      · exact hscalar bytes

-- ============================================================ what is asked for

/-- Readers of items that agree on short texts read the same lists there. -/
theorem items_congr {item item' : Reader α}
    (hitem : ∀ bytes, Leaves bytes.length (item bytes))
    (h : ∀ bytes : Bytes, bytes.length ≤ n → item bytes = item' bytes) (rounds : Nat) :
    ∀ first (bytes : Bytes), bytes.length ≤ n →
      items item rounds first bytes = items item' rounds first bytes := by
  induction rounds with
  | zero => exact fun first bytes hn => rfl
  | succ rounds ih =>
      intro first bytes hn
      rw [items_succ, items_succ]
      cases hnext : nextItem first bytes with
      | error failure => rfl
      | ok upcoming =>
          cases upcoming with
          | close left => rfl
          | item left =>
              have hleft : left.length ≤ n := Nat.le_trans (length_nextItem_le hnext) hn
              simp only [oneItem]
              rw [← h left hleft]
              refine andThen_congr (hitem left) fun x rest hrest => ?_
              rw [ih false rest (by omega)]

/-- Readers of values that agree on short texts collect the same members there. -/
theorem members_congr {read read' : Reader α}
    (hread : ∀ bytes, Leaves bytes.length (read bytes))
    (h : ∀ bytes : Bytes, bytes.length ≤ n → read bytes = read' bytes) (rounds : Nat) :
    ∀ first pairs (bytes : Bytes), bytes.length ≤ n →
      members (collect read) rounds first pairs bytes
        = members (collect read') rounds first pairs bytes := by
  have hone : ∀ pairs (bytes : Bytes), bytes.length ≤ n →
      member (collect read) pairs bytes = member (collect read') pairs bytes := by
    intro pairs bytes hn
    unfold member
    refine andThen_congr (fits_stringBody bytes).leaves fun key rest hrest => ?_
    simp only [collect]
    split
    · rfl
    next b after heq =>
      rw [h after (Nat.le_of_succ_le (length_cons_le heq (by omega)))]
  induction rounds with
  | zero => exact fun first pairs bytes hn => rfl
  | succ rounds ih =>
      intro first pairs bytes hn
      rw [members_succ, members_succ]
      cases hnext : nextMember first bytes with
      | error failure => rfl
      | ok upcoming =>
          cases upcoming with
          | close left => rfl
          | item left =>
              have hleft : left.length ≤ n := Nat.le_trans (length_nextMember_le hnext) hn
              simp only
              rw [← hone pairs left hleft]
              have hkept := leaves_member (m := collect read)
                (fun _ _ _ => leaves_mapValue (hread _)) pairs left
              exact andThen_congr hkept
                fun after rest hrest => ih false after rest (by omega)

/-- An object that stands for a text asks for this text, which is shorter. -/
theorem rawObject_congr
    (h : ∀ text, (Utf8.encode text).length < n → inner text = inner' text) {bytes : Bytes}
    (hn : bytes.length ≤ n) : rawObject inner bytes = rawObject inner' bytes := by
  have htail : (skipBlanks bytes).tail.length ≤ n := by
    rw [List.length_tail]
    exact Nat.le_trans (Nat.sub_le _ _) (Nat.le_trans (length_skipBlanks_le bytes) hn)
  refine andThen_congr (fits_heldText _) fun text rest hrest => ?_
  have hheld : (Utf8.encode text).length + 1 + rest.length ≤ (skipBlanks bytes).tail.length := hrest
  unfold heldBy
  rw [h text (by omega)]

/-- A value asks for the texts in it alone. -/
theorem valueWith_congr
    (h : ∀ text, (Utf8.encode text).length < n → inner text = inner' text) (depth : Nat) :
    ∀ bytes : Bytes, bytes.length ≤ n →
      valueWith inner depth bytes = valueWith inner' depth bytes := by
  induction depth with
  | zero => exact fun bytes hn => rfl
  | succ depth ih =>
      intro bytes hn
      unfold valueWith
      split
      next after heq =>
        rw [items_congr (leaves_valueWith inner depth) ih _ _ _
          (Nat.le_of_succ_le (length_cons_le heq hn))]
      next after heq =>
        have hafter := Nat.le_of_succ_le (length_cons_le heq hn)
        rw [rawObject_congr h hafter,
          members_congr (leaves_valueWith inner depth) ih _ _ _ _ hafter]
      · rfl

end Inner

/-- Levels above the length of a text make no difference to it. -/
theorem parseWithin_congr (levels : Nat) :
    ∀ (levels' : Nat) (text : String), (Utf8.encode text).length < levels →
      (Utf8.encode text).length < levels' → parseWithin levels text = parseWithin levels' text := by
  induction levels with
  | zero => exact fun levels' text h _ => absurd h (Nat.not_lt_zero _)
  | succ levels ih =>
      intro levels' text h h'
      cases levels' with
      | zero => exact absurd h' (Nat.not_lt_zero _)
      | succ levels' =>
          have hinner : ∀ held, (Utf8.encode held).length < (Utf8.encode text).length →
              parseWithin levels held = parseWithin levels' held := fun held hheld =>
            ih levels' held (by omega) (by omega)
          unfold parseWithin document
          rw [valueWith_congr hinner depthLimit _ (Nat.le_refl _)]

/-- A whole text is a value, and the texts that are held by it are whole texts. -/
theorem parse_eq (text : String) :
    parse text = document (value depthLimit) (Utf8.encode text) := by
  have hinner : ∀ held, (Utf8.encode held).length < (Utf8.encode text).length →
      parseWithin (Utf8.encode text).length held = parse held := fun held hheld =>
    parseWithin_congr _ _ held hheld (Nat.lt_succ_self _)
  unfold parse value document
  rw [parseWithin, document, valueWith_congr hinner depthLimit _ (Nat.le_refl _)]

end TransformCache.Json
