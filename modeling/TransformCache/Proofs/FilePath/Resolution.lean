/-
Where a path leads, by its text alone.

Two paths can lead to one place and make different moves: one of them enters a
directory and leaves it again. `resolved` takes such detours out. What is left
is a list of names from the root, or of names after some steps upwards where a
path does not begin at the root; and paths of which the same is left lead to
the same place.

The way from a base to a path goes up once for each move of the base that is
not one of the path's. That is the way back if these moves are names, which is
why it leads to the path from a base without steps upwards
(`resolved_join_way`), whatever steps upwards there are in the path.
-/
import TransformCache.Proofs.FilePath.Moves

namespace TransformCache.FilePath

variable {p base : FilePath} {way : List Component}

-- ======================================================== taking detours out

/-- What is left after one more component, where `left` was left before it, the
last component first. A step upwards takes a name back. There is none upwards
from the root, and before the first name of a relative path it stays. -/
def resolveStep (left : List Component) : Component → List Component
  | .root => [.root]
  | .current => left
  | .name text => .name text :: left
  | .up =>
    match left with
    | .name _ :: before => before
    | .root :: before => .root :: before
    | before => .up :: before

/-- The components of a path without its detours. -/
def resolved (p : FilePath) : List Component := (p.components.foldl resolveStep []).reverse

/-- A `.` leads nowhere. -/
theorem resolved_eq_moves (p : FilePath) :
    p.resolved = (p.moves.foldl resolveStep []).reverse := by
  have hidle : ∀ (cs left : List Component),
      (cs.filter (· ≠ .current)).foldl resolveStep left = cs.foldl resolveStep left := by
    intro cs
    induction cs with
    | nil => exact fun _ => rfl
    | cons c rest ih =>
        intro left
        by_cases hc : c = .current
        · subst hc
          exact ih left
        · rw [List.filter_cons_of_pos (by simpa using hc), List.foldl_cons, List.foldl_cons, ih]
  unfold resolved moves
  rw [hidle]

/-- Names are all left. -/
theorem foldl_resolveStep_names {names : List Component} (h : ∀ c ∈ names, ∃ text, c = .name text) :
    ∀ left, names.foldl resolveStep left = names.reverse ++ left := by
  induction names with
  | nil => exact fun _ => rfl
  | cons c rest ih =>
      intro left
      obtain ⟨text, rfl⟩ := h c List.mem_cons_self
      rw [List.foldl_cons, ih fun c hc => h c (List.mem_cons_of_mem _ hc), List.reverse_cons,
        List.append_assoc]
      rfl

/-- As many steps upwards take them back. -/
theorem foldl_resolveStep_up {names : List Component} (h : ∀ c ∈ names, ∃ text, c = .name text)
    (left : List Component) :
    (names.map fun _ => Component.up).foldl resolveStep (names ++ left) = left := by
  induction names with
  | nil => rfl
  | cons c rest ih =>
      obtain ⟨text, rfl⟩ := h c List.mem_cons_self
      exact ih fun c hc => h c (List.mem_cons_of_mem _ hc)

/-- So names that are followed by a step upwards for each are a detour. -/
theorem foldl_resolveStep_back {names : List Component} (h : ∀ c ∈ names, ∃ text, c = .name text)
    (left : List Component) :
    (names.map fun _ => Component.up).foldl resolveStep (names.foldl resolveStep left) = left := by
  have hsteps : (names.map fun _ => Component.up) = names.reverse.map fun _ => Component.up := by
    rw [List.map_const', List.map_const', List.length_reverse]
  rw [hsteps, foldl_resolveStep_names h]
  exact foldl_resolveStep_up (fun c hc => h c (List.mem_reverse.1 hc)) left

/-- Where there are no steps upwards there are no detours. -/
theorem resolved_of_up_not_mem (h : .up ∉ p.components) : p.resolved = p.moves := by
  rw [resolved_eq_moves, moves_eq, List.foldl_append,
    foldl_resolveStep_names (exists_name_of_segments h)]
  cases p.isAbsolute with
  | true => simp [rootMove, resolveStep]
  | false => simp [rootMove]

-- ======================================================= the way from a base

/-- The way from a base that begins where the path does. -/
theorem way?_of_same (h : base.isAbsolute = p.isAbsolute) :
    let parts := dropCommon (base.segments.filterMap move?) (p.segments.filterMap move?)
    way? base p = some (parts.1.map (fun _ => .up) ++ parts.2) := by
  unfold way?
  rw [if_neg (not_not.2 h), moves_eq, moves_eq, h]
  cases p.isAbsolute with
  | true => rfl
  | false => rfl

/-- Where a way from a base leads to depends on the base's moves alone. -/
theorem way?_congr {base' : FilePath} (h : base.isAbsolute = base'.isAbsolute)
    (hmoves : base.moves = base'.moves) (p : FilePath) : way? base p = way? base' p := by
  unfold way?
  rw [h, hmoves]

theorem isAbsolute_of_way? (h : way? base p = some way) : base.isAbsolute = p.isAbsolute := by
  unfold way? at h
  split at h
  next => cases h
  next hsame => exact not_not.1 hsame

/-- There is nothing between a base and a path that make the same moves. -/
theorem way?_eq_nil_iff (h : base.isAbsolute = p.isAbsolute) :
    way? base p = some [] ↔ base.moves = p.moves := by
  constructor
  · intro hway
    obtain ⟨common, hbase, hpath⟩ :=
      dropCommon_eq (base.segments.filterMap move?) (p.segments.filterMap move?)
    rw [way?_of_same h] at hway
    generalize (dropCommon _ _).1 = left at hbase hway
    generalize (dropCommon _ _).2 = down at hpath hway
    obtain ⟨hleft, rfl⟩ := List.append_eq_nil_iff.1 (Option.some.inj hway)
    obtain rfl := List.map_eq_nil_iff.1 hleft
    rw [moves_eq, moves_eq, h, hbase, hpath]
  · intro hmoves
    have hself := dropCommon_append p.moves []
    rw [List.append_nil] at hself
    unfold way?
    rw [if_neg (not_not.2 h), hmoves, hself]
    rfl

/-- A way is made of moves. -/
theorem isMove_of_way? (h : way? base p = some way) : ∀ c ∈ way, c.IsMove := by
  obtain ⟨common, -, hpath⟩ :=
    dropCommon_eq (base.segments.filterMap move?) (p.segments.filterMap move?)
  rw [way?_of_same (isAbsolute_of_way? h)] at h
  generalize (dropCommon _ _).2 = down at hpath h
  cases h
  intro c hc
  rcases List.mem_append.1 hc with hc | hc
  · obtain ⟨-, -, rfl⟩ := List.mem_map.1 hc
    exact ⟨rfl, by decide⟩
  · refine isMove_of_segments (p := p) c ?_
    rw [hpath]
    exact List.mem_append_right _ hc

/-- From a base without steps upwards the way to a path leads where the path
leads. -/
theorem resolved_join_way (hup : .up ∉ base.components) (h : way? base p = some way) :
    (base.join (ofComponents way)).resolved = p.resolved := by
  have hway := isMove_of_way? h
  have hsame := isAbsolute_of_way? h
  have hrelative := isAbsolute_ofComponents hway
  have hwritten : (ofComponents way).moves = way := by
    unfold moves
    rw [components_ofComponents hway]
    refine List.filter_eq_self.2 fun c hc => ?_
    cases c with
    | current => cases (hway _ hc).1
    | _ => rfl
  obtain ⟨common, hbase, hpath⟩ :=
    dropCommon_eq (base.segments.filterMap move?) (p.segments.filterMap move?)
  rw [way?_of_same hsame] at h
  generalize (dropCommon _ _).1 = left at hbase h
  generalize (dropCommon _ _).2 = down at hpath h
  have hnames : ∀ c ∈ left, ∃ text, c = .name text := fun c hc =>
    exists_name_of_segments hup c (hbase ▸ List.mem_append_right _ hc)
  rw [resolved_eq_moves, resolved_eq_moves, moves_join hrelative, hwritten, moves_eq base,
    moves_eq p, hsame, hbase, hpath, ← Option.some.inj h]
  -- what is left of the base is entered, and left again
  simp only [List.foldl_append]
  rw [foldl_resolveStep_back hnames]

end TransformCache.FilePath
