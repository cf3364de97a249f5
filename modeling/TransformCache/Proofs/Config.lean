/-
The configuration that options lead to, in closed form.

Options are applied one after the other, and each looks at nothing but the
configuration before it. What all of them lead to can be told without going
through them. Options with a faulty pattern do nothing. Of the others, every
field of the configuration takes what concerns it, by a rule of its own
(`Closed`): lists of patterns, callbacks and options of the engine are the last
that were given, each for itself; the cache is off once it was turned off; and
the mode is that of the last to give a source root and a project name.

Options that give one of these two without the other are worth a warning. It is
sent under the label and to the callback that are in effect after them
(`warnings`).
-/
import TransformCache.Config
import TransformCache.Proofs.Keyed
import Mathlib.Data.List.Infix

namespace TransformCache

variable {α β : Type}

-- ============================================================== one of many

namespace Options

/-- No pattern is faulty. -/
def wellFormed (o : Options) : Bool :=
  (o.only.getD [] ++ o.ignore.getD []).all fun text => (Glob.Pattern.parse text).toBool

/-- The mode that is asked for where both of its fields are given. -/
def mode? (o : Options) : Option Mode :=
  match o.cacheSourceRoot, o.projectName with
  | some root, some name => some (.checksum root name)
  | _, _ => none

/-- One of the two fields of a mode is given without the other. -/
def halfPair (o : Options) : Bool := o.cacheSourceRoot.isSome != o.projectName.isSome

end Options

namespace Filter

theorem patterns_eq_error_iff (texts : List String) :
    (∃ e, patterns texts = .error e)
      ↔ (texts.all fun text => (Glob.Pattern.parse text).toBool) = false := by
  induction texts with
  | nil => simp [patterns]
  | cons text rest ih =>
      rw [patterns, List.all_cons, Bool.and_eq_false_iff, ← ih]
      cases Glob.Pattern.parse text with
      | error reason => simp [Except.toBool]
      | ok p =>
          cases patterns rest with
          | error e => simp [Functor.map, Except.map]
          | ok ps => simp [Functor.map, Except.map, Except.toBool]

/-- A list is replaced unless a pattern of the new one is faulty. -/
theorem replace_cases (current : Option (List Glob.Pattern)) (given : Option (List String)) :
    ((given.getD []).all (fun text => (Glob.Pattern.parse text).toBool) = false ∧
        ∃ e, replace current given = .error e) ∨
      (given.getD []).all (fun text => (Glob.Pattern.parse text).toBool) = true ∧
        ∃ list, replace current given = .ok list ∧
          list.map Except.ok = (given.map patterns <|> current.map Except.ok) := by
  cases given with
  | none => exact .inr ⟨rfl, current, rfl, rfl⟩
  | some texts =>
      have hfault := patterns_eq_error_iff texts
      cases hpatterns : patterns texts with
      | error e =>
          left
          refine ⟨hfault.1 ⟨e, hpatterns⟩, e, ?_⟩
          show some <$> patterns texts = _
          rw [hpatterns]
          rfl
      | ok ps =>
          right
          refine ⟨?_, some ps, ?_, ?_⟩
          · rw [hpatterns] at hfault
            simpa using hfault
          · show some <$> patterns texts = _
            rw [hpatterns]
            rfl
          · simp [hpatterns]

end Filter

namespace Config

variable {c next : Config} {o : Options} {messages : List Message} {given : List Options}

/-- Options are refused if a pattern is faulty, and no others are. Those that
are accepted leave a configuration with a rule for every field. -/
theorem merge_cases (c : Config) (o : Options) :
    (o.wellFormed = false ∧ ∃ e, c.merge o = .error e) ∨
      o.wellFormed = true ∧ ∃ filter : Filter,
        filter.workingDirectory = c.filter.workingDirectory ∧
        filter.only.map Except.ok
          = (o.only.map Filter.patterns <|> c.filter.only.map Except.ok) ∧
        filter.ignore.map Except.ok
          = (o.ignore.map Filter.patterns <|> c.filter.ignore.map Except.ok) ∧
        let next : Config :=
          { filter
            cacheEnabled := c.cacheEnabled && o.cache ≠ some false
            mode := o.mode?.getD c.mode
            transform := c.transform.merged o.transform
            reporter := ⟨o.log <|> c.reporter.log, o.debug <|> c.reporter.debug⟩ }
        c.merge o = .ok (next, if o.halfPair then next.warn halfPairWarning else []) := by
  have hmode : nextMode c.mode o = (o.mode?.getD c.mode, o.halfPair) := by
    unfold nextMode Options.mode? Options.halfPair
    cases o.cacheSourceRoot with
    | none => cases o.projectName <;> rfl
    | some root => cases o.projectName <;> rfl
  unfold merge Filter.withPatterns Options.wellFormed
  rw [List.all_append, hmode]
  rcases Filter.replace_cases c.filter.only o.only with
    ⟨hfault, e, honly⟩ | ⟨hfine, only, honly, hpatterns⟩
  · left
    rw [honly, hfault]
    exact ⟨rfl, e, rfl⟩
  · rw [honly, hfine]
    rcases Filter.replace_cases c.filter.ignore o.ignore with
      ⟨hfault, e, hignore⟩ | ⟨hfine, ignore, hignore, hpatterns'⟩
    · left
      rw [hignore, hfault]
      exact ⟨rfl, e, rfl⟩
    · right
      rw [hignore, hfine]
      exact ⟨rfl, { c.filter with only, ignore }, rfl, hpatterns, hpatterns', rfl⟩

theorem merge_eq_error_iff (c : Config) (o : Options) :
    (∃ e, c.merge o = .error e) ↔ o.wellFormed = false := by
  rcases merge_cases c o with ⟨hfault, herror⟩ | ⟨hfine, filter, -, -, -, hmerge⟩
  · exact ⟨fun _ => hfault, fun _ => herror⟩
  · rw [hmerge, hfine]
    simp

-- ======================================================= one after the other

/-- Options applied to a configuration, and the messages so far. Options that are
refused change neither. -/
def apply (s : Config × List Message) (o : Options) : Config × List Message :=
  match s.1.merge o with
  | .error _ => s
  | .ok (next, messages) => (next, s.2 ++ messages)

/-- The configuration after options that are given one after the other, with the
messages that were sent on the way. -/
def applyAll (c : Config) (given : List Options) : Config × List Message :=
  given.foldl apply (c, [])

/-- The options that are not refused. -/
def accepted (given : List Options) : List Options := given.filter (·.wellFormed)

/-- What the last options say of something, of those that say anything of it. -/
def latest (f : Options → Option α) (given : List Options) : Option α :=
  (given.filterMap f).getLast?

/-- The mode after options are given. -/
def latestMode (given : List Options) : Mode := (latest Options.mode? given).getD .mtime

/-- A configuration that has the last of all that was given, and a cache that is
on if it was never turned off. -/
structure Closed (workingDirectory : FilePath) (given : List Options) (c : Config) : Prop where
  workingDirectory : c.filter.workingDirectory = workingDirectory
  /-- The list in force is the one that the texts write. -/
  only : c.filter.only.map Except.ok = (latest (·.only) given).map Filter.patterns
  ignore : c.filter.ignore.map Except.ok = (latest (·.ignore) given).map Filter.patterns
  cacheEnabled : c.cacheEnabled = true ↔ ∀ o ∈ given, o.cache ≠ some false
  mode : c.mode = latestMode given
  transform : ∀ name, c.transform.get? name = latest (·.transform.get? name) given
  names : ∀ name, name ∈ c.transform.keys ↔ ∃ o ∈ given, name ∈ o.transform.keys
  log : c.reporter.log = latest (·.log) given
  debug : c.reporter.debug = latest (·.debug) given

/-- What is sent when the last of the options are given. -/
def warnings (given : List Options) : List Message :=
  match given.getLast? with
  | none => []
  | some o =>
    if o.wellFormed && o.halfPair then
      (latest (·.log) (accepted given)).toList.map fun sink =>
        ⟨sink, labelled ((latestMode (accepted given)).projectName?.getD defaultLabel)
          halfPairWarning⟩
    else []

-- ------------------------------------------------------------- more is given

theorem accepted_snoc (given : List Options) (o : Options) :
    accepted (given ++ [o]) = accepted given ++ if o.wellFormed then [o] else [] := by
  unfold accepted
  rw [List.filter_append, List.filter_singleton, Bool.cond_eq_ite]

/-- What is given last counts, and what it says nothing of stays. -/
theorem latest_snoc (f : Options → Option α) (given : List Options) (o : Options) :
    latest f (given ++ [o]) = (f o <|> latest f given) := by
  unfold latest
  rw [List.filterMap_append]
  cases hf : f o with
  | none => simp [hf]
  | some value => simp [hf]

theorem map_latest_snoc (g : α → β) (f : Options → Option α) (given : List Options)
    (o : Options) :
    (latest f (given ++ [o])).map g = ((f o).map g <|> (latest f given).map g) := by
  rw [latest_snoc]
  cases f o with
  | none => rfl
  | some value => rfl

/-- Something was said last if any options say something. -/
theorem isSome_latest (f : Options → Option α) (given : List Options) :
    (latest f given).isSome = true ↔ ∃ o ∈ given, (f o).isSome = true := by
  unfold latest
  rw [List.getLast?_isSome]
  simp [List.filterMap_eq_nil_iff, Option.isSome_iff_ne_none]

theorem mem_keys_iff_of_latest
    (h : ∀ name, c.transform.get? name = latest (·.transform.get? name) given) (name : String) :
    name ∈ c.transform.keys ↔ ∃ o ∈ given, name ∈ o.transform.keys := by
  rw [Keyed.mem_keys_iff, h, isSome_latest]
  simp only [Keyed.mem_keys_iff]

-- ============================================================ the closed form

variable {workingDirectory : FilePath}

theorem closed_initial (workingDirectory : FilePath) :
    Closed workingDirectory [] (initial workingDirectory) where
  workingDirectory := rfl
  only := rfl
  ignore := rfl
  cacheEnabled := by simp [initial]
  mode := rfl
  transform _ := rfl
  names := mem_keys_iff_of_latest fun _ => rfl
  log := rfl
  debug := rfl

/-- Options that are accepted go on with the form, and warn if they have to. -/
theorem Closed.merge (h : Closed workingDirectory given c)
    (hmerge : c.merge o = .ok (next, messages)) :
    o.wellFormed = true ∧ Closed workingDirectory (given ++ [o]) next ∧
      messages = if o.halfPair then next.warn halfPairWarning else [] := by
  rcases merge_cases c o with ⟨-, e, herror⟩ | ⟨hfine, filter, hdirectory, honly, hignore, hok⟩
  · rw [herror] at hmerge
    cases hmerge
  · simp only at hok
    rw [hok] at hmerge
    obtain ⟨hnext, hmessages⟩ := Prod.mk.inj (Except.ok.inj hmerge)
    have htransform : ∀ name, next.transform.get? name
        = latest (·.transform.get? name) (given ++ [o]) := by
      intro name
      rw [← hnext, latest_snoc, ← h.transform]
      exact Keyed.get?_overlay ..
    refine ⟨hfine, ?_, by rw [← hmessages, hnext]⟩
    constructor
    case workingDirectory =>
      rw [← hnext]
      exact hdirectory.trans h.workingDirectory
    case only => rw [← hnext, honly, map_latest_snoc, h.only]
    case ignore => rw [← hnext, hignore, map_latest_snoc, h.ignore]
    case cacheEnabled =>
      rw [← hnext]
      simp only [Bool.and_eq_true, h.cacheEnabled, decide_eq_true_eq]
      simp [or_imp, forall_and]
    case mode =>
      rw [← hnext, latestMode, latest_snoc]
      simp only [h.mode, latestMode]
      cases o.mode? with
      | none => rfl
      | some mode => rfl
    case transform => exact htransform
    case names => exact mem_keys_iff_of_latest htransform
    case log => rw [← hnext, latest_snoc, ← h.log]
    case debug => rw [← hnext, latest_snoc, ← h.debug]

/-- A message under the label and to the callback that were given last. -/
theorem Closed.warn_eq (h : Closed workingDirectory given c) (text : String) :
    c.warn text = (latest (·.log) given).toList.map fun sink =>
      ⟨sink, labelled ((latestMode given).projectName?.getD defaultLabel) text⟩ := by
  unfold warn Reporter.warn Reporter.say label
  rw [h.log, h.mode]

theorem Closed.apply {s : Config × List Message}
    (h : Closed workingDirectory (accepted given) s.1) (o : Options) :
    Closed workingDirectory (accepted (given ++ [o])) (apply s o).1 ∧
      (Config.apply s o).2 = s.2 ++ warnings (given ++ [o]) := by
  unfold Config.apply warnings
  rw [List.getLast?_concat, accepted_snoc]
  cases hmerge : s.1.merge o with
  | error e =>
      have hfault := (merge_eq_error_iff s.1 o).1 ⟨e, hmerge⟩
      simp only [hfault]
      simpa using h
  | ok merged =>
      obtain ⟨next, messages⟩ := merged
      obtain ⟨hfine, hclosed, hmessages⟩ := h.merge hmerge
      simp only [hfine, if_true, Bool.true_and, ← hclosed.warn_eq, hmessages]
      exact ⟨hclosed, trivial⟩

/-- A cache that was turned off is not turned on again, and all that a faulty
pattern comes with is refused with it. -/
example :
    let c := (applyAll (initial ⟨"/"⟩) [{ cache := some false }, { cache := some true },
      { only := some ["["], projectName := some "app", cacheSourceRoot := some ⟨"/"⟩ }]).1
    (c.cacheEnabled, c.label) = (false, defaultLabel) := by
  decide +kernel

end Config

end TransformCache
