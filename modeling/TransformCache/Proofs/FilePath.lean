/-
Paths and their segments.

Cutting a text at its slashes and joining the pieces with slashes are inverse
to one another (`intercalate_splitSlash`, `splitSlash_intercalate`), so a path
is its segments. The parent of a path is made of the first of them
(`steps_parent`), which is what ties going up a path to walking down it.

Whether a path is absolute is kept by all that is made of it: a parent starts
where the path does (`isAbsolute_of_parent`), and what is joined where either
part does (`isAbsolute_join`).
-/
import TransformCache.FilePath.Relative
import Mathlib.Data.List.TakeWhile

namespace TransformCache.FilePath

-- ====================================================== cutting and joining

theorem splitSlash_ne_nil (cs : List Char) : splitSlash cs ≠ [] := by
  cases cs with
  | nil => exact List.cons_ne_nil _ _
  | cons c rest =>
      unfold splitSlash
      split
      · exact List.cons_ne_nil _ _
      · split <;> exact List.cons_ne_nil _ _

/-- A slash ends a segment. -/
theorem splitSlash_slash (cs : List Char) :
    splitSlash ('/' :: cs) = [] :: splitSlash cs := rfl

/-- Any other character goes on with the first segment. -/
theorem splitSlash_cons {c : Char} (hc : c ≠ '/') {cs s : List Char}
    {more : List (List Char)} (h : splitSlash cs = s :: more) :
    splitSlash (c :: cs) = (c :: s) :: more := by
  rw [splitSlash, if_neg hc, h]

theorem slash_not_mem_splitSlash (cs : List Char) :
    ∀ s ∈ splitSlash cs, '/' ∉ s := by
  induction cs with
  | nil =>
      intro s hs
      rw [List.mem_singleton.1 hs]
      exact List.not_mem_nil
  | cons c rest ih =>
      intro s hs
      by_cases hc : c = '/'
      · subst hc
        rcases List.mem_cons.1 hs with rfl | hs
        · exact List.not_mem_nil
        · exact ih s hs
      · obtain ⟨first, more, hsplit⟩ := List.exists_cons_of_ne_nil (splitSlash_ne_nil rest)
        rw [splitSlash_cons hc hsplit] at hs
        rw [hsplit] at ih
        rcases List.mem_cons.1 hs with rfl | hs
        · intro hmem
          rcases List.mem_cons.1 hmem with heq | hmem
          · exact hc heq.symm
          · exact ih first List.mem_cons_self hmem
        · exact ih s (List.mem_cons_of_mem _ hs)

theorem intercalate_splitSlash (cs : List Char) :
    List.intercalate ['/'] (splitSlash cs) = cs := by
  induction cs with
  | nil => rfl
  | cons c rest ih =>
      obtain ⟨first, more, hsplit⟩ := List.exists_cons_of_ne_nil (splitSlash_ne_nil rest)
      by_cases hc : c = '/'
      · subst hc
        rw [splitSlash_slash, hsplit, List.intercalate_cons_cons, ← hsplit, ih]
        rfl
      · rw [splitSlash_cons hc hsplit]
        rw [hsplit] at ih
        cases more with
        | nil =>
            rw [List.intercalate_singleton] at ih ⊢
            rw [ih]
        | cons second more =>
            rw [List.intercalate_cons_cons] at ih ⊢
            rw [← ih]
            simp

theorem splitSlash_of_not_mem {s : List Char} (hs : '/' ∉ s) : splitSlash s = [s] := by
  induction s with
  | nil => rfl
  | cons c rest ih =>
      have hc : c ≠ '/' := fun h => hs (h ▸ List.mem_cons_self)
      exact splitSlash_cons hc (ih fun h => hs (List.mem_cons_of_mem _ h))

/-- A segment ends at the slash after it. -/
theorem splitSlash_append_slash {s : List Char} (hs : '/' ∉ s) (cs : List Char) :
    splitSlash (s ++ '/' :: cs) = s :: splitSlash cs := by
  induction s with
  | nil => rfl
  | cons c rest ih =>
      have hc : c ≠ '/' := fun h => hs (h ▸ List.mem_cons_self)
      exact splitSlash_cons hc (ih fun h => hs (List.mem_cons_of_mem _ h))

theorem splitSlash_intercalate {segments : List (List Char)} (hne : segments ≠ [])
    (hs : ∀ s ∈ segments, '/' ∉ s) :
    splitSlash (List.intercalate ['/'] segments) = segments := by
  induction segments with
  | nil => exact absurd rfl hne
  | cons s rest ih =>
      have hfree := hs s List.mem_cons_self
      cases rest with
      | nil => rw [List.intercalate_singleton, splitSlash_of_not_mem hfree]
      | cons t more =>
          rw [List.intercalate_cons_cons, List.append_assoc]
          show splitSlash (s ++ '/' :: List.intercalate ['/'] (t :: more)) = _
          rw [splitSlash_append_slash hfree,
            ih (List.cons_ne_nil _ _) fun x hx => hs x (List.mem_cons_of_mem _ hx)]

-- ======================================================== segments of paths

variable {p q : FilePath}

/-- A path is its segments with slashes between them. -/
theorem toList_text (p : FilePath) :
    p.text.toList = List.intercalate ['/'] (splitSlash p.text.toList) :=
  (intercalate_splitSlash _).symm

theorem segments_intercalate {segments : List String} (hne : segments ≠ [])
    (hs : ∀ s ∈ segments, '/' ∉ s.toList) :
    (FilePath.mk ("/".intercalate segments)).segments = segments := by
  unfold FilePath.segments
  rw [String.toList_intercalate]
  show (splitSlash (List.intercalate ['/'] (segments.map String.toList))).map _ = _
  rw [splitSlash_intercalate (by simpa using hne) (by simpa using hs)]
  simp

theorem slash_not_mem_segments {s : String} (hs : s ∈ p.segments) : '/' ∉ s.toList := by
  obtain ⟨cs, hcs, rfl⟩ := List.mem_map.1 hs
  rw [String.toList_ofList]
  exact slash_not_mem_splitSlash _ cs hcs

theorem segments_of_isAbsolute (h : p.isAbsolute = true) :
    p.segments = "" :: p.segments.tail := by
  unfold isAbsolute at h
  unfold segments
  cases htext : p.text.toList with
  | nil => rw [htext] at h; cases h
  | cons c rest =>
      rw [htext] at h
      have hc : c = '/' := by simpa using h
      subst hc
      rw [splitSlash_slash]
      rfl

/-- The segments that a walk along a path takes: all but the root's. -/
def steps (p : FilePath) : List String := p.body.map (·.text)

/-- The steps of an absolute path follow its first segment. -/
theorem segments_eq_of_absolute (h : p.isAbsolute = true) :
    p.segments = "" :: p.steps := by
  have hs := segments_of_isAbsolute h
  unfold steps body
  rw [h, hs]
  simp [Segment.inner, Function.comp_def]

/-- The steps of a relative path are all its segments. -/
theorem segments_eq_of_relative (h : p.isAbsolute = false) : p.segments = p.steps := by
  unfold steps body
  rw [h]
  cases hs : p.segments with
  | nil => rfl
  | cons first rest => simp [Segment.inner, Function.comp_def]

/-- A walk takes a step at least, also along the empty path. -/
theorem steps_ne_nil (p : FilePath) : p.steps ≠ [] := by
  intro hnil
  cases h : p.isAbsolute with
  | false =>
      have hseg := segments_eq_of_relative h
      rw [hnil] at hseg
      exact splitSlash_ne_nil _ (List.map_eq_nil_iff.1 hseg)
  | true =>
      -- an absolute path has two segments at least
      have hseg := segments_eq_of_absolute h
      rw [hnil] at hseg
      unfold segments at hseg
      unfold isAbsolute at h
      cases hcs : p.text.toList with
      | nil => rw [hcs] at h; cases h
      | cons c rest =>
          rw [hcs] at h hseg
          have hc : c = '/' := by simpa using h
          subst hc
          rw [splitSlash_slash] at hseg
          have hlen := congrArg List.length hseg
          simp at hlen
          exact splitSlash_ne_nil rest hlen

theorem slash_not_mem_steps {s : String} (hs : s ∈ p.steps) : '/' ∉ s.toList := by
  cases h : p.isAbsolute with
  | true =>
      refine slash_not_mem_segments (p := p) ?_
      rw [segments_eq_of_absolute h]
      exact List.mem_cons_of_mem _ hs
  | false =>
      refine slash_not_mem_segments (p := p) ?_
      rw [segments_eq_of_relative h]
      exact hs

-- ================================================================= parents

/-- What is dropped from the end was at the end. -/
theorem eq_dropIdle_append (body : List Segment) : ∃ idle, body = dropIdle body ++ idle := by
  refine ⟨(body.reverse.takeWhile fun s => !s.significant).reverse, ?_⟩
  unfold dropIdle
  rw [← List.reverse_append, List.takeWhile_append_dropWhile, List.reverse_reverse]

/-- A parent is made of the first segments of the path, and not of all. -/
theorem parent_parts (h : p.parent? = some q) :
    ∃ before after, p.body = before ++ after ∧ after ≠ [] ∧
      q = ofSegments p.isAbsolute before := by
  unfold parent? at h
  obtain ⟨idle, hidle⟩ := eq_dropIdle_append p.body
  split at h
  · cases h
  next hne =>
    cases h
    obtain ⟨idle', hidle'⟩ := eq_dropIdle_append (dropIdle p.body).dropLast
    have hlast := List.dropLast_concat_getLast hne
    refine ⟨dropIdle (dropIdle p.body).dropLast,
      idle' ++ [(dropIdle p.body).getLast hne] ++ idle, ?_, by simp, rfl⟩
    calc p.body = dropIdle p.body ++ idle := hidle
      _ = (dropIdle p.body).dropLast ++ [(dropIdle p.body).getLast hne] ++ idle := by
          rw [hlast]
      _ = _ := by
          conv => lhs; rw [hidle']
          simp

/-- Joining more segments goes on with the text. -/
theorem prefix_intercalate (a b : List (List Char)) :
    List.intercalate ['/'] a <+: List.intercalate ['/'] (a ++ b) := by
  induction a with
  | nil => exact List.nil_prefix
  | cons x xs ih =>
      cases xs with
      | nil =>
          cases b with
          | nil => exact List.prefix_rfl
          | cons y ys =>
              rw [List.intercalate_singleton]
              show x <+: List.intercalate ['/'] (x :: y :: ys)
              rw [List.intercalate_cons_cons, List.append_assoc]
              exact List.prefix_append _ _
      | cons y ys =>
          show List.intercalate ['/'] (x :: y :: ys)
            <+: List.intercalate ['/'] (x :: y :: (ys ++ b))
          rw [List.intercalate_cons_cons, List.intercalate_cons_cons]
          exact (List.prefix_append_right_inj _).2 ih

/-- The slash that an absolute path begins with. -/
def rootText (absolute : Bool) : List Char := if absolute then ['/'] else []

/-- A path is its root and its steps with slashes between them. -/
theorem toList_text_eq_steps (p : FilePath) :
    p.text.toList
      = rootText p.isAbsolute ++ List.intercalate ['/'] (p.steps.map String.toList) := by
  have htext : p.text.toList
      = List.intercalate ['/'] (p.segments.map String.toList) := by
    rw [segments, List.map_map]
    simpa [Function.comp_def] using toList_text p
  rw [htext]
  cases h : p.isAbsolute with
  | false => rw [segments_eq_of_relative h]; rfl
  | true =>
      rw [segments_eq_of_absolute h, List.map_cons,
        List.intercalate_cons_of_ne_nil (by simpa using steps_ne_nil p)]
      rfl

/-- The text of a path that is made of segments. -/
theorem toList_text_ofSegments (absolute : Bool) (body : List Segment) :
    (ofSegments absolute body).text.toList
      = rootText absolute
        ++ List.intercalate ['/'] ((body.map (·.text)).map String.toList) := by
  cases absolute with
  | false =>
      show ("/".intercalate (body.map (·.text))).toList = _
      rw [String.toList_intercalate]
      rfl
  | true =>
      show ("/" ++ "/".intercalate (body.map (·.text))).toList = _
      rw [String.toList_append, String.toList_intercalate]
      rfl

/-- A parent's text is where the path's text begins. -/
theorem prefix_text_parent (h : p.parent? = some q) :
    q.text.toList <+: p.text.toList := by
  obtain ⟨before, after, hbody, -, rfl⟩ := parent_parts h
  rw [toList_text_ofSegments, toList_text_eq_steps p]
  unfold steps
  rw [hbody, List.map_append, List.map_append]
  exact (List.prefix_append_right_inj _).2 (prefix_intercalate _ _)

/-- A parent that is written out starts where the path does. -/
theorem isAbsolute_parent (h : p.parent? = some q) (hne : q.text ≠ "") :
    q.isAbsolute = p.isAbsolute := by
  obtain ⟨rest, hrest⟩ := prefix_text_parent h
  unfold isAbsolute
  rw [← hrest]
  cases hq : q.text.toList with
  | nil => exact absurd (String.toList_eq_nil_iff.1 hq) hne
  | cons c cs => rfl

/-- The steps to a parent are the first of the steps along the path; to the
root itself they are one that leads nowhere. -/
theorem steps_parent (h : p.parent? = some q) (hne : q.text ≠ "") :
    ∃ before after, p.steps = before ++ after ∧ after ≠ [] ∧
      (q.steps = before ∨ before = [] ∧ q.steps = [""] ∧ q.isAbsolute = true) := by
  have habs := isAbsolute_parent h hne
  obtain ⟨before, after, hbody, hafter, hq⟩ := parent_parts h
  have hsteps : p.steps = before.map (·.text) ++ after.map (·.text) := by
    rw [steps, hbody, List.map_append]
  have hfree : ∀ s ∈ before.map (·.text), '/' ∉ s.toList := fun s hs =>
    slash_not_mem_steps (p := p) (by rw [hsteps]; exact List.mem_append_left _ hs)
  refine ⟨before.map (·.text), after.map (·.text), hsteps, by simpa using hafter, ?_⟩
  cases hp : p.isAbsolute with
  | false =>
      rw [hp] at habs hq
      left
      have hbefore : before ≠ [] := by
        intro hnil
        subst hnil
        exact hne (by rw [hq]; rfl)
      rw [← segments_eq_of_relative habs, hq]
      exact segments_intercalate (by simpa using hbefore) hfree
  | true =>
      rw [hp] at habs hq
      by_cases hbefore : before = []
      · subst hbefore
        right
        have hseg := segments_eq_of_absolute habs
        rw [hq] at hseg
        have hroot : (ofSegments true []).segments = ["", ""] := by decide
        rw [hroot] at hseg
        rw [hq]
        exact ⟨rfl, (List.cons.inj hseg).2.symm, by rw [← hq]; exact habs⟩
      · left
        have hjoin : q = ⟨"/".intercalate ("" :: before.map (·.text))⟩ := by
          rw [hq]
          unfold ofSegments
          rw [String.intercalate_cons_of_ne_nil (by simpa using hbefore)]
          simp
        have hall : ∀ s ∈ "" :: before.map (·.text), '/' ∉ s.toList := by
          intro s hs
          rcases List.mem_cons.1 hs with rfl | hs
          · simp
          · exact hfree s hs
        have hseg := segments_intercalate (List.cons_ne_nil _ _) hall
        rw [← hjoin, segments_eq_of_absolute habs] at hseg
        exact (List.cons.inj hseg).2

/-- A parent starts where the path does. -/
theorem isAbsolute_of_parent (h : p.parent? = some q) : q.isAbsolute = p.isAbsolute := by
  by_cases hne : q.text = ""
  · obtain ⟨before, -, -, -, hq⟩ := parent_parts h
    cases hp : p.isAbsolute with
    | false =>
        unfold isAbsolute
        rw [hne]
        rfl
    | true =>
        rw [hp] at hq
        have htext : q.text.toList = '/' :: ("/".intercalate (before.map (·.text))).toList := by
          rw [hq]
          exact String.toList_append
        rw [hne] at htext
        cases htext
  · exact isAbsolute_parent h hne

/-- Segments that name nothing are empty or a point. -/
theorem text_of_idle {s : Segment} (hs : s ∈ p.body) (hidle : s.significant = false) :
    s.text = "" ∨ s.text = "." := by
  have hinner : ∀ text : String, (Segment.inner text).significant = false →
      text = "" ∨ text = "." := fun text h => by
    by_cases hempty : text = ""
    · exact .inl hempty
    · right
      simpa [Segment.inner, hempty] using h
  have hmap : ∀ rest : List String, s ∈ rest.map .inner → s.text = "" ∨ s.text = "." := by
    intro rest hmem
    obtain ⟨text, -, rfl⟩ := List.mem_map.1 hmem
    exact hinner text hidle
  unfold body at hs
  split at hs
  · exact hmap _ hs
  · rcases List.mem_cons.1 hs with rfl | hs
    · left
      simpa using hidle
    · exact hmap _ hs
  · exact absurd hs List.not_mem_nil

/-- A path without a parent leads nowhere. -/
theorem steps_of_no_parent (h : p.parent? = none) : ∀ s ∈ p.steps, s = "" ∨ s = "." := by
  have hidle : dropIdle p.body = [] := by
    unfold parent? at h
    split at h
    next heq => exact heq
    next => cases h
  have hall : ∀ s ∈ p.body, s.significant = false := by
    unfold dropIdle at hidle
    simpa [List.dropWhile_eq_nil_iff] using hidle
  intro text htext
  obtain ⟨s, hs, rfl⟩ := List.mem_map.1 htext
  exact text_of_idle hs (hall s hs)

-- ============================================================ from a directory

/-- A path that another one is joined to starts where either does. -/
theorem isAbsolute_join (p child : FilePath) :
    (p.join child).isAbsolute = (p.isAbsolute || child.isAbsolute) := by
  unfold join
  cases hchild : child.isAbsolute with
  | true => simp [hchild]
  | false =>
      simp only [Bool.false_eq_true, if_false, Bool.or_false]
      cases hp : p.text.toList with
      | nil =>
          have hempty : p.text = "" := String.toList_eq_nil_iff.1 hp
          unfold isAbsolute at hchild ⊢
          rw [hempty]
          simpa using hchild
      | cons c cs =>
          unfold isAbsolute
          split
          · simp [hp]
          · simp [hp]

theorem isAbsolute_foldl_join (parts : List Component) :
    ∀ {p : FilePath}, p.isAbsolute = true →
      (parts.foldl (fun path part => path.join ⟨part.text⟩) p).isAbsolute = true := by
  induction parts with
  | nil => intro p h; exact h
  | cons c rest ih =>
      intro p h
      exact ih (by rw [isAbsolute_join, h]; rfl)

theorem components_of_isAbsolute (h : p.isAbsolute = true) :
    ∃ named, p.components = .root :: named := by
  unfold components
  rw [h]
  exact ⟨_, rfl⟩

/-- What is seen from an absolute working directory is absolute. -/
theorem isAbsolute_absolute? {cwd : FilePath} (hcwd : cwd.isAbsolute = true)
    (h : absolute? cwd p = some q) : q.isAbsolute = true := by
  unfold absolute? at h
  simp only at h
  split at h
  · cases h
  · generalize hwhole : List.foldl _ _ _ = whole at h
    have habs : whole.isAbsolute = true := by
      rw [← hwhole]
      cases hp : p.isAbsolute with
      | false => exact isAbsolute_foldl_join _ hcwd
      | true =>
          obtain ⟨named, hnamed⟩ := components_of_isAbsolute hp
          rw [hnamed]
          simp only [if_true]
          split
          · exact isAbsolute_foldl_join (p := ⟨"//"⟩) _ (by decide)
          · exact isAbsolute_foldl_join (p := .join ⟨""⟩ ⟨"/"⟩) named (by decide)
    rw [← Option.some.inj h]
    split
    · rw [isAbsolute_join, habs]
      rfl
    · exact habs

theorem relative?_eq_none_iff {base : FilePath} :
    relative? base p = none ↔ base.isAbsolute ≠ p.isAbsolute := by
  unfold relative? way?
  split
  next h => simp [h]
  next h => simpa using h

end TransformCache.FilePath
