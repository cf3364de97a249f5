/-
Options that are refused leave nothing behind.

Options can ask for many changes at once: of the filter, the cache, the mode,
the options of the engine, the callbacks and the extensions. They are refused
for one faulty pattern, whatever else they ask for, and the answer names such a
pattern and its fault (`badPattern_of_merge`). What the others were made into by
then is the next configuration, which is dropped, so the register and all of
its world stay as they were, down to the messages (`configure_of_faulty`).

Whether options are refused does not depend on the configuration that they are
given to. So it is the same calls that come to nothing in every run, and runs
that differ in no more than such calls are the same run to everyone else
(`refusals_leave_no_trace`).
-/
import TransformCache.Proofs.Config
import TransformCache.Proofs.Register.Persistence

namespace TransformCache

variable {e : Error} {o : Options}

-- ==================================================== why options are refused

namespace Filter

/-- An error that names a text of a list that writes no pattern, and why. -/
def BadPattern (texts : List String) (e : Error) : Prop :=
  ∃ text ∈ texts, ∃ reason, Glob.Pattern.parse text = .error reason ∧
    e = .config (.badPattern text reason)

theorem badPattern_of_patterns {texts : List String} (h : patterns texts = .error e) :
    BadPattern texts e := by
  induction texts with
  | nil => cases h
  | cons text rest ih =>
      unfold patterns at h
      cases hparse : Glob.Pattern.parse text with
      | error reason =>
          rw [hparse] at h
          exact ⟨text, List.mem_cons_self, reason, hparse, (Except.error.inj h).symm⟩
      | ok p =>
          rw [hparse] at h
          cases hrest : patterns rest with
          | ok ps =>
              rw [hrest] at h
              cases h
          | error other =>
              rw [hrest] at h
              obtain rfl := Except.error.inj h
              obtain ⟨text', hmem, hbad⟩ := ih hrest
              exact ⟨text', List.mem_cons_of_mem _ hmem, hbad⟩

theorem badPattern_of_replace {current : Option (List Glob.Pattern)}
    {given : Option (List String)} (h : replace current given = .error e) :
    BadPattern (given.getD []) e := by
  cases given with
  | none => cases h
  | some texts =>
      rw [replace] at h
      cases hpatterns : patterns texts with
      | ok ps =>
          rw [hpatterns] at h
          cases h
      | error other =>
          rw [hpatterns] at h
          obtain rfl := Except.error.inj h
          exact badPattern_of_patterns hpatterns

end Filter

/-- Options are refused for a faulty pattern and for nothing else. -/
theorem Config.badPattern_of_merge {c : Config} (h : c.merge o = .error e) :
    Filter.BadPattern (o.only.getD [] ++ o.ignore.getD []) e := by
  unfold Config.merge Filter.withPatterns at h
  cases honly : Filter.replace c.filter.only o.only with
  | error other =>
      rw [honly] at h
      obtain rfl := Except.error.inj h
      obtain ⟨text, hmem, hbad⟩ := Filter.badPattern_of_replace honly
      exact ⟨text, List.mem_append_left _ hmem, hbad⟩
  | ok only =>
      rw [honly] at h
      cases hignore : Filter.replace c.filter.ignore o.ignore with
      | error other =>
          rw [hignore] at h
          obtain rfl := Except.error.inj h
          obtain ⟨text, hmem, hbad⟩ := Filter.badPattern_of_replace hignore
          exact ⟨text, List.mem_append_right _ hmem, hbad⟩
      | ok ignore =>
          rw [hignore] at h
          cases h

/-- Options that are refused leave the register and its world. -/
theorem Register.configure_of_faulty (r : Register) (w : World) (h : o.wellFormed = false) :
    ∃ e, Filter.BadPattern (o.only.getD [] ++ o.ignore.getD []) e ∧
      r.configure w o = ⟨.error e, r, w⟩ := by
  obtain ⟨e, hmerge⟩ := (Config.merge_eq_error_iff r.config o).2 h
  refine ⟨e, Config.badPattern_of_merge hmerge, ?_⟩
  unfold Register.configure
  rw [hmerge]

theorem Options.wellFormed_eq_false {text : String} {reason : Glob.PatternFault}
    (hmem : text ∈ o.only.getD [] ++ o.ignore.getD [])
    (hparse : Glob.Pattern.parse text = .error reason) : o.wellFormed = false :=
  List.all_eq_false.2 ⟨text, hmem, by rw [hparse]; exact Bool.false_ne_true⟩

namespace Life

open Teardown (Call State)

variable {m : Move}

-- ============================================================ in a whole run

/-- True for options that are refused when they are given. -/
def Move.refused : Move → Bool
  | .call (.configure o) => !o.wellFormed
  | _ => false

/-- A run without the options that are refused. -/
def granted (moves : List Move) : List Move := moves.filter fun m => !m.refused

theorem apply_of_refused (h : m.refused = true) (s : State) : m.apply s = s := by
  cases m with
  | call c =>
      cases c with
      | configure o =>
          obtain ⟨e, -, hconfigure⟩ := s.1.configure_of_faulty s.2 (by simpa [Move.refused] using h)
          simp only [Move.apply, Call.apply, hconfigure]
      | _ => cases h
  | _ => cases h

/-- The moves of a run, each with what it answers and with the register and the
world after it. -/
def history (s : State) : List Move → List (Move × Reply × State)
  | [] => []
  | m :: rest => (m, m.reply s, m.apply s) :: history (m.apply s) rest

/-- What everyone but those whose options were refused has of a run. -/
def seen (s : State) (moves : List Move) : List (Move × Reply × State) :=
  (history s moves).filter fun entry => !entry.1.refused

/-- What is seen of a run is the run without the options that were refused. -/
theorem history_granted (moves : List Move) :
    ∀ s, history s (granted moves) = seen s moves ∧ run s (granted moves) = run s moves := by
  induction moves with
  | nil => exact fun s => ⟨rfl, rfl⟩
  | cons m rest ih =>
      intro s
      cases hm : m.refused with
      | true =>
          have hgranted : granted (m :: rest) = granted rest :=
            List.filter_cons_of_neg (by simp [hm])
          have hseen : seen s (m :: rest) = seen (m.apply s) rest :=
            List.filter_cons_of_neg (by simp [hm])
          have hrun : run s (m :: rest) = run (m.apply s) rest := rfl
          rw [hgranted, hseen, hrun, apply_of_refused hm]
          exact ih s
      | false =>
          have hgranted : granted (m :: rest) = m :: granted rest :=
            List.filter_cons_of_pos (by simp [hm])
          have hseen : seen s (m :: rest) = (m, m.reply s, m.apply s) :: seen (m.apply s) rest :=
            List.filter_cons_of_pos (by simp [hm])
          obtain ⟨hhistory, hend⟩ := ih (m.apply s)
          rw [hgranted, hseen, history, hhistory]
          exact ⟨rfl, hend⟩

-- ========================================================== main statement

/-- In whatever state a register is. Options with a faulty pattern, whatever else
they ask for, are answered with an error that names one and its fault, and leave
the register and all of its world as they were: its configuration, hooks and
table, the store with its entries and marks, the tasks that wait, and the
messages. And of two runs that differ in no more than such options, all other
moves are the same: what they answer, and the register and the world after
each. -/
theorem refusals_leave_no_trace (s : State) :
    (∀ o : Options, (∃ text ∈ o.only.getD [] ++ o.ignore.getD [], ∃ reason,
        Glob.Pattern.parse text = .error reason) →
      ∃ text ∈ o.only.getD [] ++ o.ignore.getD [], ∃ reason,
        Glob.Pattern.parse text = .error reason ∧
          s.1.configure s.2 o = ⟨.error (.config (.badPattern text reason)), s.1, s.2⟩) ∧
    ∀ moves moves', granted moves = granted moves' →
      seen s moves = seen s moves' ∧ run s moves = run s moves' := by
  refine ⟨fun o ⟨text, hmem, reason, hparse⟩ => ?_, fun moves moves' h => ?_⟩
  · obtain ⟨e, ⟨named, hnamed, why, hwhy, rfl⟩, hconfigure⟩ :=
      s.1.configure_of_faulty s.2 (Options.wellFormed_eq_false hmem hparse)
    exact ⟨named, hnamed, why, hwhy, hconfigure⟩
  · obtain ⟨hseen, hend⟩ := history_granted moves s
    obtain ⟨hseen', hend'⟩ := history_granted moves' s
    rw [← hseen, ← hseen', ← hend, ← hend', h]
    exact ⟨rfl, rfl⟩

-- --------------------------------------------------- all is asked for, in vain

/-- Options that turn the cache off, name a source root and a project, and give
callbacks, options of the engine and extensions, with patterns of files that are
to be left alone. -/
def sweeping (ignore : List String) : Options where
  ignore := some ignore
  cache := some false
  cacheSourceRoot := some ⟨"/"⟩
  projectName := some "app"
  extensions := some [".ts"]
  log := some ⟨"log"⟩
  debug := some ⟨"debug"⟩
  transform := (∅ : EngineOptions).insert "retainLines" (.bool true)

/-- What is done after the options were given. -/
def goingOn : List Move := [.load ⟨"/a.js"⟩ none, .call (.compile ⟨"/a.js"⟩ none)]

/-- The general statement for such options whose only pattern is faulty, in a run
that goes on after them. With another pattern they change the run. -/
theorem refusals_leave_no_trace_sweeping :
    let begun := run Teardown.living [.call (.compile ⟨"/a.js"⟩ none)]
    let refused := Move.call (.configure (sweeping ["["]))
    begun.1.configure begun.2 (sweeping ["["])
        = ⟨.error (.config (.badPattern "[" .unclosedClass)), begun.1, begun.2⟩ ∧
      granted (refused :: goingOn) = goingOn ∧
      seen begun (refused :: goingOn) = seen begun goingOn ∧
      let taken := run begun [.call (.configure (sweeping ["b.js"]))]
      taken.1.hookedExtensions = [".ts"] ∧ (taken.2.store 0).enabled = false ∧
        taken.2.messages = [⟨⟨"debug"⟩, "[app] extensions .ts"⟩] := by
  intro begun refused
  have hparse : Glob.Pattern.parse "[" = .error .unclosedClass := rfl
  have hgranted : granted (refused :: goingOn) = goingOn :=
    List.filter_cons_of_neg (by decide +kernel)
  obtain ⟨hconfigure, hruns⟩ := refusals_leave_no_trace begun
  obtain ⟨text, hmem, reason, hreason, hanswer⟩ :=
    hconfigure (sweeping ["["]) ⟨"[", List.mem_singleton_self _, .unclosedClass, hparse⟩
  obtain rfl : text = "[" := List.mem_singleton.1 hmem
  obtain rfl : reason = .unclosedClass := Except.error.inj (hreason.symm.trans hparse)
  exact ⟨hanswer, hgranted, (hruns _ _ hgranted).1, by decide +kernel⟩

end Life

end TransformCache
