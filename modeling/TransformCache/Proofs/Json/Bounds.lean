/-
What readers answer is within bounds.

A value that is read as it is written nests no deeper than was allowed, and its
whole numbers have 64 bits (`answers_tree`). If it is looked at as it is read,
the members of its objects are sorted, at whatever level of texts that hold
texts it was found (`answers_value`). So what is read is plain but for numbers
that are not whole (`Tidy.plain`).

`Answers P` says of an answer that what was read is `P`, if anything was read.
It is passed on by the parts that readers are made of, one lemma for each: what
follows another reader (`answers_andThen`), the items of a list (`answers_items`)
and the members of an object, which keep what each of them keeps
(`answers_members`). It is a case of `Yields R`, which speaks of what is left as
well. A round of a reader is what comes next (`Upcoming`) and then an item, for
lists (`items_succ`) as for objects (`members_succ`).
-/
import Mathlib.Data.List.TakeWhile
import TransformCache.Proofs.Json.RoundTrip

namespace TransformCache.Json

-- ======================================================== rounds of readers

section Rounds

variable {α σ : Type}

/-- What comes next in a list or an object: its end, or an item. -/
inductive Upcoming where
  | close (rest : Bytes)
  | item (rest : Bytes)

/-- What comes next in a list. -/
def nextItem (first : Bool) (rest : Bytes) : Except Failure Upcoming :=
  match skipBlanks rest with
  | [] => fail .endInList []
  | b :: after =>
    if b = 0x5D then .ok (.close after)
    else if first then .ok (.item (b :: after))
    else if b = 0x2C then
      match skipBlanks after with
      | [] => fail .endInValue []
      | b :: after => if b = 0x5D then fail .trailingComma after else .ok (.item (b :: after))
    else fail .expectedCommaOrBracket after

/-- What comes next in an object: an item is a member from after its quote. -/
def nextMember (first : Bool) (rest : Bytes) : Except Failure Upcoming :=
  match skipBlanks rest with
  | [] => fail .endInObject []
  | b :: after =>
    if b = 0x7D then .ok (.close after)
    else if first then
      if b = 0x22 then .ok (.item after) else fail .keyNotString after
    else if b = 0x2C then
      match skipBlanks after with
      | [] => fail .endInValue []
      | b :: after =>
        if b = 0x22 then .ok (.item after)
        else if b = 0x7D then fail .trailingComma after
        else fail .keyNotString after
    else fail .expectedCommaOrBrace after

theorem items_succ (item : Reader α) (rounds : Nat) (first : Bool) (rest : Bytes) :
    items item (rounds + 1) first rest
      = match nextItem first rest with
        | .error failure => .error failure
        | .ok (.close after) => .ok ([], after)
        | .ok (.item rest) => oneItem item (items item rounds false) rest := by
  rw [items, nextItem]
  cases skipBlanks rest with
  | nil => rfl
  | cons b after =>
      simp only
      by_cases hclose : b = 0x5D
      · simp only [if_pos hclose]
      · cases first with
        | true => simp only [if_neg hclose, if_true]
        | false =>
            by_cases hcomma : b = 0x2C
            · simp only [if_neg hclose, if_pos hcomma, Bool.false_eq_true, if_false]
              cases skipBlanks after with
              | nil => rfl
              | cons b after =>
                  simp only
                  by_cases hlast : b = 0x5D
                  · simp only [if_pos hlast]
                    rfl
                  · simp only [if_neg hlast]
            · simp only [if_neg hclose, if_neg hcomma, Bool.false_eq_true, if_false]
              rfl

theorem members_succ (m : MemberRule σ) (rounds : Nat) (first : Bool) (state : σ)
    (rest : Bytes) :
    members m (rounds + 1) first state rest
      = match nextMember first rest with
        | .error failure => .error failure
        | .ok (.close after) => .ok (state, after)
        | .ok (.item rest) => andThen (member m state rest) (members m rounds false) := by
  rw [members, nextMember]
  cases skipBlanks rest with
  | nil => rfl
  | cons b after =>
      simp only
      by_cases hclose : b = 0x7D
      · simp only [if_pos hclose]
      · cases first with
        | true =>
            by_cases hquote : b = 0x22
            · simp only [if_neg hclose, if_pos hquote, if_true]
            · simp only [if_neg hclose, if_neg hquote, if_true]
              rfl
        | false =>
            by_cases hcomma : b = 0x2C
            · simp only [if_neg hclose, if_pos hcomma, Bool.false_eq_true, if_false]
              cases skipBlanks after with
              | nil => rfl
              | cons b after =>
                  simp only
                  by_cases hquote : b = 0x22
                  · simp only [if_pos hquote]
                  · by_cases hlast : b = 0x7D
                    · simp only [if_neg hquote, if_pos hlast]
                      rfl
                    · simp only [if_neg hquote, if_neg hlast]
                      rfl
            · simp only [if_neg hclose, if_neg hcomma, Bool.false_eq_true, if_false]
              rfl

end Rounds

-- ================================================================= answers

section Answers

variable {α β σ : Type} {P : α → Prop} {Q : β → Prop}

/-- What was read, if anything was, and what is left of the text are so. -/
def Yields (R : α → Bytes → Prop) (answer : Answer α) : Prop :=
  ∀ x rest, answer = .ok (x, rest) → R x rest

section Yields

variable {R : α → Bytes → Prop} {R' : β → Bytes → Prop} {answer : Answer α}

theorem yields_ok {x : α} {rest : Bytes} (h : R x rest) : Yields R (.ok (x, rest)) := by
  rintro _ _ ⟨⟩
  exact h

theorem yields_error (failure : Failure) : Yields R (.error failure) := fun _ _ h => by cases h

theorem Yields.mono {R' : α → Bytes → Prop} (h : Yields R answer)
    (hmono : ∀ x rest, R x rest → R' x rest) : Yields R' answer :=
  fun x rest heq => hmono x rest (h x rest heq)

theorem yields_andThen {next : α → Bytes → Answer β} (h : Yields R answer)
    (hnext : ∀ x rest, R x rest → Yields R' (next x rest)) :
    Yields R' (andThen answer next) := by
  unfold andThen
  cases answer with
  | error failure => exact yields_error _
  | ok read => exact hnext read.1 read.2 (h read.1 read.2 rfl)

theorem yields_mapValue {f : α → β} (h : Yields R answer)
    (hf : ∀ x rest, R x rest → R' (f x) rest) : Yields R' (mapValue f answer) :=
  yields_andThen h fun x rest hx => yields_ok (hf x rest hx)

/-- What comes after it matters only there. -/
theorem andThen_congr {next next' : α → Bytes → Answer β} (h : Yields R answer)
    (hnext : ∀ x rest, R x rest → next x rest = next' x rest) :
    andThen answer next = andThen answer next' := by
  unfold andThen
  cases answer with
  | error failure => rfl
  | ok read => exact hnext read.1 read.2 (h read.1 read.2 rfl)

theorem yields_word (x : α) (expected : Bytes) :
    ∀ rest, Yields (fun y left => y = x ∧ left.length ≤ rest.length) (word x expected rest) := by
  induction expected with
  | nil => exact fun rest => yields_ok ⟨rfl, Nat.le_refl _⟩
  | cons e expected ih =>
      intro rest
      cases rest with
      | nil => exact yields_error _
      | cons b rest =>
          rw [word]
          split
          · exact (ih rest).mono fun y left hy => ⟨hy.1, Nat.le_succ_of_le hy.2⟩
          · exact yields_error _

end Yields

/-- What was read, if anything was, is of a kind. -/
def Answers (P : α → Prop) (answer : Answer α) : Prop := Yields (fun x _ => P x) answer

theorem answers_ok {x : α} (h : P x) (rest : Bytes) : Answers P (.ok (x, rest)) := yields_ok h

theorem answers_error (failure : Failure) : Answers P (.error failure) := yields_error failure

theorem Answers.mono {P' : α → Prop} {answer : Answer α} (h : Answers P answer)
    (hmono : ∀ x, P x → P' x) : Answers P' answer := Yields.mono h fun x _ => hmono x

theorem answers_andThen {answer : Answer α} {next : α → Bytes → Answer β} (h : Answers P answer)
    (hnext : ∀ x rest, P x → Answers Q (next x rest)) : Answers Q (andThen answer next) :=
  yields_andThen h hnext

theorem answers_mapValue {answer : Answer α} {f : α → β} (h : Answers P answer)
    (hf : ∀ x, P x → Q (f x)) : Answers Q (mapValue f answer) :=
  yields_mapValue h fun x _ => hf x

theorem answers_word {value : α} (h : P value) (expected rest : Bytes) :
    Answers P (word value expected rest) :=
  (yields_word value expected rest).mono fun _ _ hx => hx.1 ▸ h

/-- The items of a list are what the reader of items answers. -/
theorem answers_items {item : Reader α} (hitem : ∀ bytes, Answers P (item bytes))
    (rounds : Nat) :
    ∀ first bytes, Answers (fun xs => ∀ x ∈ xs, P x) (items item rounds first bytes) := by
  induction rounds with
  | zero => exact fun first bytes => answers_error _
  | succ rounds ih =>
      intro first bytes
      rw [items_succ]
      cases nextItem first bytes with
      | error failure => exact answers_error _
      | ok upcoming =>
          cases upcoming with
          | close after => exact answers_ok (fun _ hx => by cases hx) _
          | item left =>
              exact answers_andThen (hitem left) fun x rest hx =>
                answers_mapValue (ih false rest) fun xs hxs => List.forall_mem_cons.2 ⟨hx, hxs⟩

/-- What every member keeps of the state, an object keeps. -/
theorem answers_members {m : MemberRule σ} {I : σ → Prop}
    (hmember : ∀ state key bytes, I state → Answers I (m.member state key bytes))
    (rounds : Nat) :
    ∀ first state bytes, I state → Answers I (members m rounds first state bytes) := by
  have hone : ∀ state bytes, I state → Answers I (member m state bytes) := by
    intro state bytes hstate
    refine answers_andThen (P := fun _ => True) (fun _ _ _ => trivial) fun key rest _ => ?_
    split
    · exact answers_error _
    · split
      · exact answers_error _
      · split
        · exact hmember state key _ hstate
        · exact answers_error _
  induction rounds with
  | zero => exact fun first state bytes _ => answers_error _
  | succ rounds ih =>
      intro first state bytes hstate
      rw [members_succ]
      cases nextMember first bytes with
      | error failure => exact answers_error _
      | ok upcoming =>
          cases upcoming with
          | close after => exact answers_ok hstate _
          | item left =>
              exact answers_andThen (hone state left hstate) fun after rest => ih false after rest

/-- An object answers what is made of a state that its members have kept. -/
theorem answers_objectOf {m : MemberRule σ} {I : σ → Prop} {start : σ} (hstart : I start)
    (hmember : ∀ state key bytes, I state → Answers I (m.member state key bytes))
    {finish : σ → Except Fault α} (hfinish : ∀ state x, I state → finish state = .ok x → P x)
    (expected : String) (depth : Nat) (bytes : Bytes) :
    Answers P (objectOf expected depth m start finish bytes) := by
  have hscalar : ∀ bytes, Answers P (scalarOf (α := α) expected (fun _ => none) bytes) := by
    intro bytes
    unfold scalarOf
    simp only
    split
    · exact answers_error _
    · exact answers_error _
    · exact answers_andThen (P := fun _ => True) (fun _ _ _ => trivial)
        fun x rest _ => answers_error _
  unfold objectOf
  simp only
  split
  · split
    · exact answers_error _
    · refine answers_andThen (answers_members hmember _ _ _ _ hstart) fun state rest hstate => ?_
      split
      next x hx => exact answers_ok (hfinish state x hstate hx) _
      next => exact answers_error _
  · exact answers_error _
  · exact hscalar _

theorem of_document {read : Reader α} (hread : ∀ bytes, Answers P (read bytes)) {text : Bytes}
    {x : α} (h : document read text = .ok x) : P x := by
  unfold document at h
  simp only at h
  split at h
  next y rest hwhole =>
    cases h
    refine answers_andThen (hread text) (fun x rest hx => ?_) _ _ hwhole
    split
    · exact answers_ok hx _
    · exact answers_error _
  next => cases h

end Answers

-- ======================================================= all that is held

/-- Induction from the values that a value holds. -/
@[elab_as_elim]
theorem holding {motive : Json → Prop} (scalar : ∀ x : Json, x.depth = 0 → motive x)
    (array : ∀ xs, (∀ x ∈ xs, motive x) → motive (.array xs))
    (object : ∀ ms, (∀ m ∈ ms, motive m.2) → motive (.object ms)) : ∀ x : Json, motive x :=
  @Json.rec motive (fun xs => ∀ x ∈ xs, motive x) (fun ms => ∀ m ∈ ms, motive m.2)
    (fun m => motive m.2) (scalar .null rfl) (fun b => scalar (.bool b) rfl)
    (fun n => scalar (.int n) rfl) (fun x => scalar (.float x) rfl)
    (fun s => scalar (.string s) rfl) array object (fun _ h => (List.not_mem_nil h).elim)
    (fun _ _ hx hxs => List.forall_mem_cons.2 ⟨hx, hxs⟩) (fun _ h => (List.not_mem_nil h).elim)
    (fun _ _ hm hms => List.forall_mem_cons.2 ⟨hm, hms⟩) fun _ _ hx => hx

mutual

/-- A value is of a kind, and so is every value that it holds. -/
def Every (P : Json → Prop) : Json → Prop
  | .array xs => P (.array xs) ∧ EveryItem P xs
  | .object ms => P (.object ms) ∧ EveryMember P ms
  | x => P x

def EveryItem (P : Json → Prop) : List Json → Prop
  | [] => True
  | x :: xs => Every P x ∧ EveryItem P xs

def EveryMember (P : Json → Prop) : List (String × Json) → Prop
  | [] => True
  | (_, x) :: ms => Every P x ∧ EveryMember P ms

end

section Every

variable {P Q : Json → Prop}

theorem everyItem_iff {xs : List Json} : EveryItem P xs ↔ ∀ x ∈ xs, x.Every P := by
  induction xs with
  | nil => simp [EveryItem]
  | cons x rest ih => simp [EveryItem, ih]

theorem everyMember_iff {ms : List (String × Json)} :
    EveryMember P ms ↔ ∀ m ∈ ms, m.2.Every P := by
  induction ms with
  | nil => simp [EveryMember]
  | cons head rest ih => simp [EveryMember, ih]

theorem every_array {xs : List Json} :
    (Json.array xs).Every P ↔ P (.array xs) ∧ ∀ x ∈ xs, x.Every P := by
  rw [Every, everyItem_iff]

theorem every_object {ms : List (String × Json)} :
    (Json.object ms).Every P ↔ P (.object ms) ∧ ∀ m ∈ ms, m.2.Every P := by
  rw [Every, everyMember_iff]

/-- What is no container holds nothing. -/
theorem every_of_depth_eq_zero {x : Json} (h : x.depth = 0) : x.Every P ↔ P x := by
  cases x with
  | array xs => simp [Json.depth] at h
  | object ms => simp [Json.depth] at h
  | _ => exact Iff.rfl

-- ------------------------------------------------------ told by looking

variable [DecidablePred P]

mutual

/-- Whether a value and all that it holds are of a kind. -/
def decideEvery : ∀ x : Json, Decidable (x.Every P)
  | .null => inferInstanceAs (Decidable (P .null))
  | .bool b => inferInstanceAs (Decidable (P (.bool b)))
  | .int n => inferInstanceAs (Decidable (P (.int n)))
  | .float x => inferInstanceAs (Decidable (P (.float x)))
  | .string s => inferInstanceAs (Decidable (P (.string s)))
  | .array xs => @instDecidableAnd _ _ inferInstance (decideItems xs)
  | .object ms => @instDecidableAnd _ _ inferInstance (decideMembers ms)

def decideItems : ∀ xs : List Json, Decidable (EveryItem P xs)
  | [] => .isTrue trivial
  | x :: xs => @instDecidableAnd _ _ (decideEvery x) (decideItems xs)

def decideMembers : ∀ ms : List (String × Json), Decidable (EveryMember P ms)
  | [] => .isTrue trivial
  | (_, x) :: ms => @instDecidableAnd _ _ (decideEvery x) (decideMembers ms)

end

instance (x : Json) : Decidable (x.Every P) := decideEvery x

end Every

/-- A number that is kept as a whole one has 64 bits. -/
def Kept : Json → Prop
  | .int n => IsWhole n
  | _ => True

/-- No number that is not whole. -/
def NoFloat : Json → Prop
  | .float _ => False
  | _ => True

instance : DecidablePred NoFloat
  | .float _ => .isFalse id
  | .null | .bool _ | .int _ | .string _ | .array _ | .object _ => .isTrue trivial

/-- The members of an object are sorted. -/
def Ordered : Json → Prop
  | .object ms => Members.Sorted ms
  | _ => True

/-- Every number is a whole one. -/
def Integral (x : Json) : Prop := x.Every NoFloat

instance (x : Json) : Decidable x.Integral := inferInstanceAs (Decidable (x.Every NoFloat))

/-- A plain value is one whose numbers are whole, and kept, and whose objects are
sorted. -/
theorem plain_iff (x : Json) : x.Plain ↔ x.Integral ∧ x.Every Kept ∧ x.Every Ordered := by
  unfold Integral
  induction x using holding with
  | scalar x h =>
      rw [every_of_depth_eq_zero h, every_of_depth_eq_zero h, every_of_depth_eq_zero h]
      cases x with
      | array xs => simp [Json.depth] at h
      | object ms => simp [Json.depth] at h
      | _ => simp [Plain, NoFloat, Kept, Ordered]
  | array xs ih =>
      rw [Plain, plainItems_iff, every_array, every_array, every_array]
      simp only [NoFloat, Kept, Ordered, true_and]
      rw [← forall₂_and, ← forall₂_and]
      exact forall₂_congr ih
  | object ms ih =>
      rw [Plain, plainMembers_iff, every_object, every_object, every_object]
      simp only [NoFloat, Kept, Ordered, true_and]
      have hall := forall₂_congr ih
      rw [forall₂_and, forall₂_and] at hall
      rw [hall]
      exact ⟨fun ⟨hsorted, hwhole, hkept, hordered⟩ => ⟨hwhole, hkept, hsorted, hordered⟩,
        fun ⟨hwhole, hkept, hsorted, hordered⟩ => ⟨hsorted, hwhole, hkept, hordered⟩⟩

-- ================================================================== values

/-- A value that can be read as it is written where `depth` more containers may
be open. -/
structure Legible (depth : Nat) (x : Json) : Prop where
  depth : x.depth ≤ depth
  kept : x.Every Kept

theorem Legible.mono {d d' : Nat} {x : Json} (h : Legible d x) (hd : d ≤ d') : Legible d' x :=
  ⟨Nat.le_trans h.depth hd, h.kept⟩

theorem legible_array {d : Nat} {xs : List Json} (h : ∀ x ∈ xs, Legible d x) :
    Legible (d + 1) (.array xs) where
  depth := Nat.succ_le_succ ((depthItems_le_iff xs).2 fun x hx => (h x hx).depth)
  kept := every_array.2 ⟨trivial, fun x hx => (h x hx).kept⟩

theorem legible_object {d : Nat} {ms : List (String × Json)} (h : ∀ m ∈ ms, Legible d m.2) :
    Legible (d + 1) (.object ms) where
  depth := Nat.succ_le_succ ((depthMembers_le_iff ms).2 fun m hm => (h m hm).depth)
  kept := every_object.2 ⟨trivial, fun m hm => (h m hm).kept⟩

/-- A number, of 64 bits if it is a whole one. -/
def IsNumber : Json → Prop
  | .int n => IsWhole n
  | .float _ => True
  | _ => False

theorem IsNumber.legible {x : Json} (h : x.IsNumber) : Legible 0 x := by
  cases x with
  | int n => exact ⟨Nat.le_refl _, h⟩
  | float x => exact ⟨Nat.le_refl _, trivial⟩
  | _ => exact h.elim

/-- A number that is kept as a whole one has 64 bits. -/
theorem isWhole_wholeNumber {negative : Bool} {size : Nat} {n : Int}
    (h : wholeNumber negative size = some n) : IsWhole n := by
  unfold wholeNumber gatherLimit at h
  unfold IsWhole
  split at h
  · split at h
    · cases h
      omega
    · cases h
  · split at h
    · cases h
      omega
    · cases h

-- ---------------------------------------------------------------- numbers

theorem length_skipBlanks_le (bytes : Bytes) : (skipBlanks bytes).length ≤ bytes.length :=
  List.length_dropWhile_le _ _

/-- A number was read, if anything was, and no more than `n` bytes are left. -/
def NumberWithin (n : Nat) : Answer Json → Prop :=
  Yields fun x rest => x.IsNumber ∧ rest.length ≤ n

section Numbers

variable {n : Nat} {rest : Bytes}

theorem within_decimal (h : rest.length ≤ n) (negative : Bool) (digits : Nat) (exponent : Int) :
    NumberWithin n (decimal negative digits exponent rest) := by
  unfold decimal
  split
  · exact yields_ok ⟨trivial, h⟩
  · exact yields_error _

theorem length_exponentDigits_le (bytes : Bytes) :
    ∀ value, (exponentDigits value bytes).2.length ≤ bytes.length := by
  induction bytes with
  | nil => exact fun value => Nat.le_refl _
  | cons b bytes ih =>
      intro value
      unfold exponentDigits
      split
      · simp only
        split
        · exact Nat.le_succ _
        · exact Nat.le_trans (ih _) (Nat.le_succ _)
      · exact Nat.le_refl _

theorem within_exponentPart (h : rest.length ≤ n) (negative : Bool) (digits : Nat)
    (shift : Int) : NumberWithin n (exponentPart negative digits shift rest) := by
  unfold exponentPart
  simp only
  have hsigned : (if (decide (rest.head? = some 0x2D) || decide (rest.head? = some 0x2B)) = true
      then rest.tail else rest).length ≤ n := by
    split
    · rw [List.length_tail]
      omega
    · exact h
  generalize (if (decide (rest.head? = some 0x2D) || decide (rest.head? = some 0x2B)) = true
    then rest.tail else rest) = signed at hsigned
  split
  · exact yields_error _
  next b after =>
    split
    · have hdigits := length_exponentDigits_le (b :: after) 0
      split
      next left hleft =>
        rw [hleft] at hdigits
        split
        · exact yields_error _
        · exact yields_ok ⟨trivial,
            Nat.le_trans (List.length_dropWhile_le _ _) (Nat.le_trans hdigits hsigned)⟩
      next left hleft =>
        rw [hleft] at hdigits
        exact within_decimal (Nat.le_trans hdigits hsigned) _ _ _
    · exact yields_error _

theorem within_afterFraction (h : rest.length ≤ n) (negative : Bool) (digits : Nat)
    (shift : Int) : NumberWithin n (afterFraction negative digits shift rest) := by
  unfold afterFraction
  split
  next b after =>
    split
    · exact within_exponentPart (Nat.le_of_succ_le h) _ _ _
    · exact within_decimal h _ _ _
  next => exact within_decimal h _ _ _

theorem within_ofWhole (h : rest.length ≤ n) (negative : Bool) (whole left : Nat) :
    NumberWithin n (afterWhole.ofWhole negative whole left rest) := by
  unfold afterWhole.ofWhole
  split
  next k hk =>
    split at hk
    · exact yields_ok ⟨show IsNumber (.int k) from isWhole_wholeNumber hk, h⟩
    · cases hk
  next => exact within_decimal h _ _ _

theorem within_afterWhole (h : rest.length ≤ n) (negative : Bool) (whole left : Nat) :
    NumberWithin n (afterWhole negative whole left rest) := by
  unfold afterWhole
  split
  next b after =>
    have hafter : after.length ≤ n := Nat.le_of_succ_le h
    split
    · simp only
      split
      · exact yields_error _
      · exact within_afterFraction (Nat.le_trans (List.length_dropWhile_le _ _) hafter) _ _ _
    · split
      · exact within_exponentPart hafter _ _ _
      · exact within_ofWhole h _ _ _
  next => exact within_ofWhole h _ _ _

theorem within_numberBody (h : rest.length ≤ n) (negative : Bool) :
    NumberWithin n (numberBody negative rest) := by
  unfold numberBody
  split
  · exact yields_error _
  next b after =>
    have hafter : after.length ≤ n := Nat.le_of_succ_le h
    split
    · split
      · split
        · exact yields_error _
        · exact within_afterWhole hafter _ _ _
      · exact within_afterWhole (Nat.le_trans (List.length_dropWhile_le _ _) hafter) _ _ _
    · exact yields_error _

end Numbers

theorem answers_numberBody (negative : Bool) (bytes : Bytes) :
    Answers IsNumber (numberBody negative bytes) :=
  (within_numberBody (Nat.le_refl _) negative).mono fun _ _ hx => hx.1

theorem answers_scalar (bytes : Bytes) : Answers (Legible 0) (scalar bytes) := by
  have hscalar : ∀ x : Json, x.depth = 0 → x.Kept → Legible 0 x := fun x hdepth hx =>
    ⟨Nat.le_of_eq hdepth, (every_of_depth_eq_zero hdepth).2 hx⟩
  unfold scalar
  split
  · exact answers_error _
  · split
    · exact answers_word (hscalar .null rfl trivial) _ _
    · exact answers_word (hscalar (.bool true) rfl trivial) _ _
    · exact answers_word (hscalar (.bool false) rfl trivial) _ _
    · exact answers_mapValue (P := fun _ => True) (fun _ _ _ => trivial)
        fun s _ => hscalar (.string s) rfl trivial
    · exact (answers_numberBody _ _).mono fun x hx => hx.legible
    · split
      · exact (answers_numberBody _ _).mono fun x hx => hx.legible
      · exact answers_error _

/-- Members that are collected are of the kind that their reader answers. -/
theorem answers_collect {P : Json → Prop} {read : Reader Json}
    (h : ∀ bytes, Answers P (read bytes)) (rounds : Nat) (bytes : Bytes) :
    Answers (fun pairs => ∀ m ∈ pairs.reverse, P m.2)
      (members (collect read) rounds true [] bytes) := by
  refine (answers_members (I := fun pairs => ∀ m ∈ pairs, P m.2) (fun pairs key bytes hpairs =>
    answers_mapValue (Q := fun pairs : List (String × Json) => ∀ m ∈ pairs, P m.2) (h bytes)
      fun x hx => List.forall_mem_cons.2 ⟨hx, hpairs⟩) rounds true [] bytes
    fun _ hm => by cases hm).mono fun pairs hpairs m hm => hpairs m (List.mem_reverse.1 hm)

/-- A value that is read as it is written where `depth` more containers may be
open. -/
theorem answers_tree (depth : Nat) : ∀ bytes, Answers (Legible depth) (tree depth bytes) := by
  induction depth with
  | zero =>
      intro bytes
      unfold tree
      split
      · exact answers_error _
      · exact answers_error _
      · exact answers_scalar _
  | succ depth ih =>
      intro bytes
      unfold tree
      split
      · exact answers_mapValue (answers_items ih _ _ _) fun xs hxs => legible_array hxs
      · exact answers_mapValue (answers_collect ih _ _) fun pairs hpairs => legible_object hpairs
      · exact (answers_scalar _).mono fun x hx => hx.mono (Nat.zero_le _)

-- --------------------------------------------------------- texts in texts

/-- A value that is looked at as it is read has its objects sorted. -/
structure Tidy (x : Json) : Prop where
  kept : x.Every Kept
  ordered : x.Every Ordered

theorem Tidy.plain {x : Json} (h : x.Tidy) (hwhole : x.Integral) : x.Plain :=
  (plain_iff x).2 ⟨hwhole, h.kept, h.ordered⟩

theorem Legible.tidy {x : Json} (h : Legible 0 x) : x.Tidy := by
  have hdepth : x.depth = 0 := Nat.le_zero.1 h.depth
  refine ⟨h.kept, (every_of_depth_eq_zero hdepth).2 ?_⟩
  cases x with
  | object ms => simp [Json.depth] at hdepth
  | _ => trivial

theorem tidy_array {xs : List Json} (h : ∀ x ∈ xs, Tidy x) : Tidy (.array xs) where
  kept := every_array.2 ⟨trivial, fun x hx => (h x hx).kept⟩
  ordered := every_array.2 ⟨trivial, fun x hx => (h x hx).ordered⟩

theorem tidy_object {ms : List (String × Json)} (h : ∀ m ∈ ms, Tidy m.2) :
    Tidy (.object (Members.ofList ms)) where
  kept := every_object.2 ⟨trivial, fun m hm => (h m (Members.mem_ofList hm)).kept⟩
  ordered := every_object.2 ⟨Members.sorted_ofList ms, fun m hm =>
    (h m (Members.mem_ofList hm)).ordered⟩

section Inner

variable {inner : String → Except Error Json} {P : Json → Prop}
  (hinner : ∀ text x, inner text = .ok x → P x)

include hinner in
/-- An object that stands for a text is what that text is. -/
theorem answers_rawObject (bytes : Bytes) : Answers P (rawObject inner bytes) := by
  refine answers_andThen (P := fun _ => True) (fun _ _ _ => trivial) fun text rest _ => ?_
  unfold heldBy
  split
  · exact answers_error _
  next x hx =>
    exact answers_mapValue (P := fun _ => True) (fun _ _ _ => trivial)
      fun _ _ => hinner text x hx

end Inner

theorem answers_valueWith {inner : String → Except Error Json}
    (hinner : ∀ text x, inner text = .ok x → Tidy x) (depth : Nat) :
    ∀ bytes, Answers Tidy (valueWith inner depth bytes) := by
  induction depth with
  | zero =>
      intro bytes
      unfold valueWith
      split
      · exact answers_error _
      · exact answers_error _
      · exact (answers_scalar _).mono fun x hx => hx.tidy
  | succ depth ih =>
      intro bytes
      unfold valueWith
      split
      · exact answers_mapValue (answers_items ih _ _ _) fun xs hxs => tidy_array hxs
      · split
        · exact answers_rawObject hinner _
        · exact answers_mapValue (answers_collect ih _ _) fun pairs hpairs => tidy_object hpairs
      · exact (answers_scalar _).mono fun x hx => hx.tidy

/-- A text that holds texts is read to a tidy value, to whatever level. -/
theorem tidy_of_parse {text : String} {x : Json} (h : parse text = .ok x) : x.Tidy := by
  have hlevels : ∀ levels text x, parseWithin levels text = .ok x → x.Tidy := by
    intro levels
    induction levels with
    | zero => exact fun text x h => by cases h
    | succ levels ih => exact fun text x h => of_document (answers_valueWith ih depthLimit) h
  exact hlevels _ text x h

theorem answers_value (depth : Nat) (bytes : Bytes) : Answers Tidy (value depth bytes) :=
  answers_valueWith (fun _ _ h => tidy_of_parse h) depth bytes

end TransformCache.Json
