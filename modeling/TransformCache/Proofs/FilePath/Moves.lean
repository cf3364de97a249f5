/-
The moves that paths make.

A path leads somewhere by moves: to the root, if it begins there, then upwards
or to a name with every segment that is neither empty nor a point (`moves_eq`).
So it does not matter how often slashes are repeated and where a point stands,
and the moves of joined paths are those of the one and then those of the other
(`moves_join`).

The way from a base to what is joined to it is therefore the moves of the
latter, whatever the base is (`relative?_join`), and written as a path these
moves are read again as they were (`components_ofComponents`).
-/
import TransformCache.Proofs.FilePath

namespace TransformCache.FilePath

variable {p base : FilePath}

-- ==================================================== segments that lead on

/-- The move that a segment makes, if it makes any. -/
def move? (segment : String) : Option Component :=
  if segment = "" ∨ segment = "." then none
  else if segment = ".." then some .up
  else some (.name segment)

/-- The first move of an absolute path. -/
def rootMove (absolute : Bool) : List Component := if absolute then [.root] else []

/-- A segment is significant unless it is empty, or a point. A point may be. -/
def Segment.Regular (s : Segment) : Prop :=
  (s.text = "" → s.significant = false) ∧
    (s.text ≠ "" → s.text ≠ "." → s.significant = true)

theorem regular_inner (text : String) : (Segment.inner text).Regular := by
  constructor
  · intro h
    simpa [Segment.inner] using fun hne => absurd h hne
  · intro hempty hpoint
    simpa [Segment.inner] using ⟨hempty, hpoint⟩

theorem regular_body (p : FilePath) : ∀ s ∈ p.body, s.Regular := by
  have hinner : ∀ rest : List String, ∀ s ∈ rest.map Segment.inner, s.Regular := by
    intro rest s hs
    obtain ⟨text, -, rfl⟩ := List.mem_map.1 hs
    exact regular_inner text
  unfold body
  split
  next => exact hinner _
  next first rest _ _ =>
    intro s hs
    rcases List.mem_cons.1 hs with rfl | hs
    · constructor
      · intro h
        simpa using h
      · intro h _
        simpa using h
    · exact hinner rest s hs
  next => exact fun s hs => by cases hs

/-- The significant segments, points aside, make the moves. -/
theorem named_eq_moves (body : List Segment) (h : ∀ s ∈ body, s.Regular) :
    ((body.filter (·.significant)).map (·.component)).filter (· ≠ .current)
      = (body.map (·.text)).filterMap move? := by
  induction body with
  | nil => rfl
  | cons s rest ih =>
      have hrest := ih fun s hs => h s (List.mem_cons_of_mem _ hs)
      obtain ⟨hempty, hother⟩ := h s List.mem_cons_self
      rw [List.map_cons, List.filterMap_cons]
      by_cases htext : s.text = ""
      · rw [List.filter_cons_of_neg (by simp [hempty htext]), hrest]
        simp [move?, htext]
      · by_cases hpoint : s.text = "."
        · have hmove : move? s.text = none := by simp [move?, hpoint]
          have hcomponent : s.component = .current := by simp [Segment.component, hpoint]
          rw [hmove]
          by_cases hs : s.significant = true
          · rw [List.filter_cons_of_pos hs, List.map_cons, hcomponent,
              List.filter_cons_of_neg (by simp), hrest]
          · rw [List.filter_cons_of_neg hs, hrest]
        · have hmove : move? s.text = some s.component := by
            unfold move? Segment.component
            rw [if_neg (by simp [htext, hpoint]), if_neg hpoint]
            split
            · rfl
            · rfl
          have hcomponent : s.component ≠ .current := by
            unfold Segment.component
            rw [if_neg hpoint]
            split
            · exact Component.noConfusion
            · exact Component.noConfusion
          rw [hmove, List.filter_cons_of_pos (hother htext hpoint), List.map_cons,
            List.filter_cons_of_pos (by simpa using hcomponent), hrest]

theorem filterMap_segments (p : FilePath) :
    p.segments.filterMap move? = p.steps.filterMap move? := by
  cases h : p.isAbsolute with
  | true =>
      rw [segments_eq_of_absolute h]
      exact List.filterMap_cons_none rfl
  | false => rw [segments_eq_of_relative h]

/-- The moves of a path, segment by segment. -/
theorem moves_eq (p : FilePath) :
    p.moves = rootMove p.isAbsolute ++ p.segments.filterMap move? := by
  have hnamed := named_eq_moves p.body (regular_body p)
  rw [filterMap_segments]
  unfold moves components
  simp only
  cases p.isAbsolute with
  | true => rw [if_pos rfl, List.filter_cons_of_pos (by simp), hnamed]; rfl
  | false => rw [if_neg Bool.false_ne_true, hnamed]; rfl

/-- A component that a segment can stand for, after the root. -/
def Component.IsMove (c : Component) : Prop := move? c.text = some c ∧ '/' ∉ c.text.toList

/-- What segments make is made of what stands between slashes. -/
theorem isMove_of_segments : ∀ c ∈ p.segments.filterMap move?, c.IsMove := by
  intro c hc
  obtain ⟨segment, hsegment, hmove⟩ := List.mem_filterMap.1 hc
  have htext : c.text = segment := by
    unfold move? at hmove
    split at hmove
    · cases hmove
    · split at hmove
      next hup => cases hmove; exact hup.symm
      next => cases hmove; rfl
  unfold Component.IsMove
  rw [htext]
  exact ⟨hmove, slash_not_mem_segments hsegment⟩

theorem isMove_of_relative (h : p.isAbsolute = false) : ∀ c ∈ p.moves, c.IsMove := by
  rw [moves_eq, h]
  exact isMove_of_segments

/-- A move that is no step upwards is a name. -/
theorem Component.IsMove.exists_name {c : Component} (h : c.IsMove) (hup : c ≠ .up) :
    ∃ text, c = .name text := by
  cases c with
  | root => cases h.1
  | current => cases h.1
  | up => exact absurd rfl hup
  | name text => exact ⟨text, rfl⟩

/-- Without steps upwards a path makes its way by names. -/
theorem exists_name_of_segments (h : .up ∉ p.components) :
    ∀ c ∈ p.segments.filterMap move?, ∃ text, c = .name text := by
  intro c hc
  refine (isMove_of_segments c hc).exists_name fun hup => h ?_
  have hmove : c ∈ p.moves := by
    rw [moves_eq]
    exact List.mem_append_right _ hc
  exact hup ▸ (List.mem_filter.1 hmove).1

-- ============================================================ joined paths

/-- What stands before a slash and what stands after it is cut for itself. -/
theorem splitSlash_append (cs ds : List Char) :
    splitSlash (cs ++ '/' :: ds) = splitSlash cs ++ splitSlash ds := by
  induction cs with
  | nil => rfl
  | cons c rest ih =>
      by_cases hc : c = '/'
      · subst hc
        rw [List.cons_append, splitSlash_slash, splitSlash_slash, ih, List.cons_append]
      · obtain ⟨first, more, hsplit⟩ := List.exists_cons_of_ne_nil (splitSlash_ne_nil rest)
        rw [hsplit, List.cons_append] at ih
        rw [List.cons_append, splitSlash_cons hc ih, splitSlash_cons hc hsplit, List.cons_append]

/-- The slash between joined paths adds nothing but idle segments. -/
theorem filterMap_segments_join (h : p.isAbsolute = false) :
    (base.join p).segments.filterMap move?
      = base.segments.filterMap move? ++ p.segments.filterMap move? := by
  have hcut : ∀ (text : List Char) (q : FilePath), q.text.toList = text ++ '/' :: p.text.toList →
      q.segments.filterMap move?
        = ((splitSlash text).map String.ofList).filterMap move?
          ++ p.segments.filterMap move? := by
    intro text q hq
    unfold segments
    rw [hq, splitSlash_append, List.map_append, List.filterMap_append]
  unfold join
  rw [h, if_neg Bool.false_ne_true]
  split
  next hbare =>
    by_cases hempty : base.text = ""
    · have hsame : (⟨base.text ++ p.text⟩ : FilePath) = p := by rw [hempty, String.empty_append]
      have hnone : base.segments.filterMap move? = [] := by
        unfold segments
        rw [hempty]
        rfl
      rw [hsame, hnone, List.nil_append]
    · obtain ⟨text, htext⟩ : ∃ text, base.text.toList = text ++ ['/'] :=
        List.getLast?_eq_some_iff.1 (hbare.resolve_left hempty)
      have hbase : base.segments.filterMap move?
          = ((splitSlash text).map String.ofList).filterMap move? := by
        unfold segments
        rw [htext, splitSlash_append, List.map_append, List.filterMap_append]
        exact List.append_nil _
      rw [hbase]
      exact hcut text _ (by rw [String.toList_append, htext, List.append_assoc]; rfl)
  next =>
    refine hcut base.text.toList _ ?_
    rw [String.toList_append, String.toList_append, List.append_assoc]
    rfl

theorem moves_join (h : p.isAbsolute = false) (base : FilePath) :
    (base.join p).moves = base.moves ++ p.moves := by
  rw [moves_eq, moves_eq base, moves_eq p, filterMap_segments_join h, isAbsolute_join, h,
    Bool.or_false, List.append_assoc]
  rfl

-- ======================================================= the way from a base

/-- Taking away what two lists have in common leaves both as they were after it. -/
theorem dropCommon_eq (as bs : List Component) :
    ∃ common, as = common ++ (dropCommon as bs).1 ∧ bs = common ++ (dropCommon as bs).2 := by
  induction as generalizing bs with
  | nil => exact ⟨[], rfl, rfl⟩
  | cons a as ih =>
      cases bs with
      | nil => exact ⟨[], rfl, rfl⟩
      | cons b bs =>
          rw [dropCommon]
          split
          next hsame =>
            obtain ⟨common, has, hbs⟩ := ih bs
            refine ⟨a :: common, ?_, ?_⟩
            · rw [List.cons_append, ← has]
            · rw [List.cons_append, ← hbs, hsame]
          next => exact ⟨[], rfl, rfl⟩

theorem dropCommon_append (cs ds : List Component) : dropCommon cs (cs ++ ds) = ([], ds) := by
  induction cs with
  | nil =>
      cases ds with
      | nil => rfl
      | cons d ds => rfl
  | cons c rest ih =>
      rw [List.cons_append, dropCommon, if_pos rfl]
      exact ih

/-- From a base to what is joined to it, the way is all of the latter's moves. -/
theorem way?_join (h : p.isAbsolute = false) (base : FilePath) :
    way? base (base.join p) = some p.moves := by
  have hsame : base.isAbsolute = (base.join p).isAbsolute := by
    rw [isAbsolute_join, h, Bool.or_false]
  unfold way?
  rw [if_neg (by simpa using hsame), moves_join h, dropCommon_append]
  rfl

theorem relative?_join (h : p.isAbsolute = false) (base : FilePath) :
    relative? base (base.join p) = some (ofComponents p.moves) := by
  rw [relative?, way?_join h, Option.map_some]

/-- Moves that are written as a path are its segments. -/
theorem segments_ofComponents {cs : List Component} (hne : cs ≠ [])
    (h : ∀ c ∈ cs, c.IsMove) : (ofComponents cs).segments = cs.map (·.text) := by
  refine segments_intercalate (by simpa using hne) fun s hs => ?_
  obtain ⟨c, hc, rfl⟩ := List.mem_map.1 hs
  exact (h c hc).2

theorem isAbsolute_ofComponents {cs : List Component} (h : ∀ c ∈ cs, c.IsMove) :
    (ofComponents cs).isAbsolute = false := by
  cases cs with
  | nil => rfl
  | cons c rest =>
      rw [← Bool.not_eq_true]
      intro habs
      have hseg := segments_of_isAbsolute habs
      rw [segments_ofComponents (List.cons_ne_nil _ _) h, List.map_cons] at hseg
      -- the first segment is a move, and not the empty one before a root
      have hmove := (h c List.mem_cons_self).1
      rw [(List.cons.inj hseg).1] at hmove
      cases hmove

/-- Where no segment is a point, all components are moves. -/
theorem components_eq_moves (h : "." ∉ p.segments) : p.components = p.moves := by
  have hsteps : "." ∉ p.steps := by
    intro hmem
    refine h ?_
    cases habs : p.isAbsolute with
    | true =>
        rw [segments_eq_of_absolute habs]
        exact List.mem_cons_of_mem _ hmem
    | false =>
        rw [segments_eq_of_relative habs]
        exact hmem
  have hnamed : ∀ c ∈ (p.body.filter (·.significant)).map (·.component), c ≠ .current := by
    intro c hc
    obtain ⟨s, hs, rfl⟩ := List.mem_map.1 hc
    have htext : s.text ≠ "." := fun heq =>
      hsteps (heq ▸ List.mem_map_of_mem (List.mem_filter.1 hs).1)
    unfold Segment.component
    rw [if_neg htext]
    split
    · exact Component.noConfusion
    · exact Component.noConfusion
  unfold moves
  refine (List.filter_eq_self.2 fun c hc => ?_).symm
  unfold components at hc
  simp only at hc
  split at hc
  · rcases List.mem_cons.1 hc with rfl | hc
    · rfl
    · simpa using hnamed c hc
  · simpa using hnamed c hc

theorem filterMap_move_text {cs : List Component} (h : ∀ c ∈ cs, c.IsMove) :
    (cs.map (·.text)).filterMap move? = cs := by
  induction cs with
  | nil => rfl
  | cons c rest ih =>
      rw [List.map_cons, List.filterMap_cons_some (h c List.mem_cons_self).1,
        ih fun c hc => h c (List.mem_cons_of_mem _ hc)]

/-- What is written as a path is read again. -/
theorem components_ofComponents {cs : List Component} (h : ∀ c ∈ cs, c.IsMove) :
    (ofComponents cs).components = cs := by
  by_cases hne : cs = []
  · subst hne
    rfl
  · have hsegments := segments_ofComponents hne h
    have hpoint : "." ∉ (ofComponents cs).segments := by
      rw [hsegments]
      intro hmem
      obtain ⟨c, hc, hpoint⟩ := List.mem_map.1 hmem
      have hmove := (h c hc).1
      rw [hpoint] at hmove
      cases hmove
    rw [components_eq_moves hpoint, moves_eq, isAbsolute_ofComponents h, hsegments,
      filterMap_move_text h]
    rfl

end TransformCache.FilePath
