/-
What the tail of a key tells.

Behind the options a key carries the version of the engine and, if there is
one, the discriminator of the environment. It can always be told which tail a
key has, whatever the options are, because their text shows where it ends
(`tail_of_build`). From a tail, however, the version and the discriminator
cannot always be told: they are written one after the other with a colon
between them, and a colon may stand in either. `tail_eq_iff` says which pairs
share a tail. One version goes on with a colon where the other ends, and the
discriminators make up for it.
-/
import TransformCache.CacheKey
import TransformCache.Proofs.Json.Extent
import TransformCache.Proofs.Result

namespace TransformCache.CacheKey

variable {version version' : String} {discriminator discriminator' : Option String}

-- ==================================================================== tails

/-- The second version is the first one, a colon and a rest that the first
discriminator begins with in its place. -/
def Spliced (version : String) (discriminator : Option String) (version' : String)
    (discriminator' : Option String) : Prop :=
  ∃ rest, version' = version ++ ":" ++ rest ∧ discriminator = some (tail rest discriminator')

theorem tail_some (version mode : String) : tail version (some mode) = version ++ ":" ++ mode := rfl

/-- Versions and discriminators that are spliced have one tail. -/
theorem Spliced.tail_eq (h : Spliced version discriminator version' discriminator') :
    tail version discriminator = tail version' discriminator' := by
  obtain ⟨rest, rfl, rfl⟩ := h
  cases discriminator' with
  | none => rfl
  | some mode => simp only [tail_some, String.append_assoc]

/-- Two texts with a colon in each are the same if the parts before the colon
are and the parts after it, or if one part before it goes on past it. -/
theorem append_colon_eq {a b c d : String} (h : a ++ ":" ++ b = c ++ ":" ++ d) :
    (a = c ∧ b = d) ∨ (∃ rest, c = a ++ ":" ++ rest ∧ b = rest ++ ":" ++ d) ∨
      ∃ rest, a = c ++ ":" ++ rest ∧ d = rest ++ ":" ++ b := by
  have hlist := congrArg String.toList h
  have hcolon : ":".toList = [':'] := rfl
  simp only [String.toList_append, hcolon, List.append_assoc, List.singleton_append] at hlist
  -- what one side has more of before its colon is nothing, or begins with a colon
  have hmore : ∀ {x y u : List Char}, ':' :: x = u ++ ':' :: y →
      u = [] ∧ x = y ∨ ∃ rest, u = ':' :: rest ∧ x = rest ++ ':' :: y := by
    intro x y u hu
    cases u with
    | nil => exact .inl ⟨rfl, (List.cons.inj hu).2⟩
    | cons e rest =>
        obtain ⟨rfl, hx⟩ := List.cons.inj hu
        exact .inr ⟨rest, rfl, hx⟩
  rcases List.append_eq_append_iff.1 hlist with ⟨u, hc, hb⟩ | ⟨u, ha, hd⟩
  · rcases hmore hb with ⟨rfl, hbd⟩ | ⟨rest, rfl, hbd⟩
    · exact .inl ⟨String.toList_injective (by simpa using hc.symm), String.toList_injective hbd⟩
    · refine .inr (.inl ⟨String.ofList rest, String.toList_injective ?_,
        String.toList_injective ?_⟩)
      · simp [hc, hcolon]
      · simp [hbd, hcolon]
  · rcases hmore hd with ⟨rfl, hdb⟩ | ⟨rest, rfl, hdb⟩
    · exact .inl ⟨String.toList_injective (by simpa using ha), String.toList_injective hdb.symm⟩
    · refine .inr (.inr ⟨String.ofList rest, String.toList_injective ?_,
        String.toList_injective ?_⟩)
      · simp [ha, hcolon]
      · simp [hdb, hcolon]

/-- The pairs that share a tail: those that are the same, and those that are
spliced. -/
theorem tail_eq_iff :
    tail version discriminator = tail version' discriminator' ↔
      (version = version' ∧ discriminator = discriminator') ∨
        Spliced version discriminator version' discriminator' ∨
        Spliced version' discriminator' version discriminator := by
  constructor
  · intro h
    cases discriminator with
    | none =>
        cases discriminator' with
        | none => exact .inl ⟨h, rfl⟩
        | some mode' => exact .inr (.inr ⟨mode', h, rfl⟩)
    | some mode =>
        cases discriminator' with
        | none => exact .inr (.inl ⟨mode, h.symm, rfl⟩)
        | some mode' =>
            rcases append_colon_eq h with ⟨rfl, rfl⟩ | ⟨rest, rfl, rfl⟩ | ⟨rest, rfl, rfl⟩
            · exact .inl ⟨rfl, rfl⟩
            · exact .inr (.inl ⟨rest, rfl, rfl⟩)
            · exact .inr (.inr ⟨rest, rfl, rfl⟩)
  · rintro (⟨rfl, rfl⟩ | h | h)
    · rfl
    · exact h.tail_eq
    · exact h.tail_eq.symm

-- ===================================================================== keys

/-- A key tells its tail, whatever stands in the options. -/
theorem tail_of_build {options options' : EngineOptions} {path path' : FilePath}
    {mode mode' : Mode} {key : String}
    (h : build options path mode version discriminator = .ok key)
    (h' : build options' path' mode' version' discriminator' = .ok key) :
    tail version discriminator = tail version' discriminator' := by
  obtain ⟨a, -, hkey⟩ := map_eq_ok.1 h
  obtain ⟨b, -, hkey'⟩ := map_eq_ok.1 h'
  have hsame := hkey.trans hkey'.symm
  simp only [String.append_assoc] at hsame
  obtain ⟨-, hrest⟩ := Json.object_append_inj (a := a.members) (b := b.members) hsame
  have hlist := congrArg String.toList hrest
  rw [String.toList_append, String.toList_append] at hlist
  exact String.toList_injective (List.append_cancel_left hlist)

/-- Two keys of one file under the same options are the same exactly if their
tails are. -/
theorem build_eq_iff_tail {options : EngineOptions} {path : FilePath} {mode : Mode}
    {key key' : String} (h : build options path mode version discriminator = .ok key)
    (h' : build options path mode version' discriminator' = .ok key') :
    key = key' ↔ tail version discriminator = tail version' discriminator' := by
  constructor
  · rintro rfl
    exact tail_of_build h h'
  · intro htail
    obtain ⟨a, ha, hkey⟩ := map_eq_ok.1 h
    obtain ⟨b, hb, hkey'⟩ := map_eq_ok.1 h'
    obtain rfl : a = b := Except.ok.inj (ha.symm.trans hb)
    rw [← hkey, ← hkey', htail]

end TransformCache.CacheKey
