/-
What holds of work while it is worked off.

Running a stack of work is a recursion on what is left of it. The proofs about
running never look at that recursion: what a step preserves, a run preserves
(`run_keeps`), and a run is the repetition of one step (`run_eq_iterate`).

Tasks are trees, since an action may defer a whole task. `Action.All` says that
an effect anywhere in such a tree is of some kind; a step only ever takes such
a tree apart (`step_cases`). So what is kept by every effect of a kind is kept
while work of that kind alone is done (`perform_orderly`).
-/
import TransformCache.Turn
import Mathlib.Logic.Function.Iterate

namespace TransformCache.Turn

variable {ε σ : Type}

-- ====================================================== runs

/-- What a step preserves, a run preserves. -/
theorem run_keeps (h : Host ε σ) (P : List (Work ε) → State ε σ → Prop)
    (hstep : ∀ w rest s, P (w :: rest) s → P (step h w rest s).1 (step h w rest s).2)
    (stack : List (Work ε)) (s : State ε σ) (hp : P stack s) : P [] (run h stack s) := by
  induction stack, s using run.induct h with
  | case1 s => rw [run]; exact hp
  | case2 s w rest ih => rw [run]; exact ih (hstep w rest s hp)

/-- One step of what is under way; nothing, once nothing is left. -/
def advance (h : Host ε σ) : List (Work ε) × State ε σ → List (Work ε) × State ε σ
  | ([], s) => ([], s)
  | (w :: rest, s) => step h w rest s

/-- A run is a number of steps. -/
theorem run_eq_iterate (h : Host ε σ) (stack : List (Work ε)) (s : State ε σ) :
    ∃ k, (advance h)^[k] (stack, s) = ([], run h stack s) := by
  induction stack, s using run.induct h with
  | case1 s => exact ⟨0, by rw [run]; rfl⟩
  | case2 s w rest ih =>
      obtain ⟨k, hk⟩ := ih
      refine ⟨k + 1, ?_⟩
      rw [run, Function.iterate_succ_apply]
      exact hk

-- ====================================================== kinds of effects

mutual

/-- Every effect of an action, and of what it defers, is of a kind. -/
def Action.All (p : ε → Prop) : Action ε → Prop
  | .effect e => p e
  | .request e => p e
  | .defer _ task => taskAll p task
  | .runTurn _ report => ∀ n, p (report n)
  | .drain _ report => ∀ n, p (report n)

def taskAll (p : ε → Prop) : List (Action ε) → Prop
  | [] => True
  | a :: rest => a.All p ∧ taskAll p rest

end

mutual

theorem Action.All.mono {p q : ε → Prop} (hpq : ∀ e, p e → q e) :
    ∀ a : Action ε, a.All p → a.All q
  | .effect e => hpq e
  | .request e => hpq e
  | .defer _ task => taskAll_mono hpq task
  | .runTurn .. => fun h n => hpq _ (h n)
  | .drain .. => fun h n => hpq _ (h n)

theorem taskAll_mono {p q : ε → Prop} (hpq : ∀ e, p e → q e) :
    ∀ task : List (Action ε), taskAll p task → taskAll q task
  | [] => id
  | a :: rest => fun h => ⟨Action.All.mono hpq a h.1, taskAll_mono hpq rest h.2⟩

end

def Work.All (p : ε → Prop) : Work ε → Prop
  | .task actions => taskAll p actions
  | .report e => p e
  | .drain _ _ ending => ∀ n, p (ending n)

theorem Work.All.mono {p q : ε → Prop} (hpq : ∀ e, p e → q e) (w : Work ε)
    (hw : w.All p) : w.All q := by
  cases w with
  | task actions => exact taskAll_mono hpq actions hw
  | report e => exact hpq e hw
  | drain queue ran report => exact fun n => hpq _ (hw n)

-- ====================================================== what a step can do

/-- All that is still to be done: what is under way, and what waits. -/
def toDo (stack : List (Work ε)) (s : State ε σ) : List (Work ε) :=
  stack ++ s.waiting.map fun w => .task w.2

/-- A batch, and what its queue leaves behind, are what waited. -/
theorem batch_append_take_perm (s : State ε σ) (queue : Nat) :
    (s.batch queue ++ (s.take queue).waiting.map (·.2)).Perm (s.waiting.map (·.2)) := by
  have h := (List.filter_append_perm (fun w => decide (w.1 = queue)) s.waiting).map (·.2)
  rw [List.map_append] at h
  simpa [State.batch, State.take] using h

/-- Starting a batch leaves the same things to be done. -/
theorem toDo_take (s : State ε σ) (queue : Nat) (later : List (Work ε)) :
    (toDo ((s.batch queue).map .task ++ later) (s.take queue)).Perm (toDo later s) := by
  have h := (batch_append_take_perm s queue).map Work.task
  rw [List.map_append, List.map_map, List.map_map] at h
  refine .trans ?_ (h.append_left later)
  unfold toDo
  rw [List.append_assoc]
  exact List.perm_append_comm_assoc ..

/-- Deferring a task adds it to what is to be done. -/
theorem toDo_defer (stack : List (Work ε)) (s : State ε σ) (queue : Nat) (task : Task ε) :
    (toDo stack (s.defer queue task)).Perm (.task task :: toDo stack s) := by
  unfold toDo State.defer
  rw [List.map_append, ← List.append_assoc]
  exact List.perm_append_singleton ..

/-- Everything that a step can do: it puts parts of its work in place of the
work, and leaves the host as it is, or has an effect on it that the work held,
or makes a request that the work held and defers what that asks for. -/
inductive Stepped (h : Host ε σ) (w : Work ε) (s : State ε σ) (before after : List (Work ε)) :
    σ → Prop
  | moved (parts : List (Work ε)) (hparts : ∀ p, w.All p → ∀ v ∈ parts, v.All p)
      (hperm : after.Perm (parts ++ before)) : Stepped h w s before after s.host
  | acted (e : ε) (he : ∀ p, w.All p → p e)
      (parts : List (Work ε)) (hparts : ∀ p, w.All p → ∀ v ∈ parts, v.All p)
      (hperm : after.Perm (parts ++ before)) : Stepped h w s before after (h.act e s.host)
  | asked (e : ε) (he : ∀ p, w.All p → p e)
      (parts : List (Work ε)) (hparts : ∀ p, w.All p → ∀ v ∈ parts, v.All p)
      (hperm : after.Perm
        (((h.ask e s.host).2.map fun q => Work.task [.effect q.2]).toList
          ++ (parts ++ before))) :
      Stepped h w s before after (h.ask e s.host).1

theorem step_cases (h : Host ε σ) (w : Work ε) (rest : List (Work ε)) (s : State ε σ) :
    Stepped h w s (toDo rest s) (toDo (step h w rest s).1 (step h w rest s).2)
      (step h w rest s).2.host := by
  cases w with
  | report e => exact .acted e (fun _ h => h) [] (fun _ _ _ hv => by cases hv) (.refl _)
  | drain queue ran report =>
      simp only [step]
      split
      next hbatch =>
        refine .moved [.report (report ran)] (fun p h v hv => ?_) (.refl _)
        rw [List.mem_singleton.1 hv]
        exact h ran
      next t ts hbatch =>
        rw [← hbatch]
        refine .moved [.drain queue (ran + (s.batch queue).length) report] (fun p h v hv => ?_)
          (toDo_take ..)
        rw [List.mem_singleton.1 hv]
        exact h
  | task actions =>
      cases actions with
      | nil => exact .moved [] (fun _ _ _ hv => by cases hv) (.refl _)
      | cons a more =>
          have hmore : ∀ p, (Work.task (a :: more)).All p →
              ∀ v ∈ [Work.task more], v.All p := fun p h v hv => by
            rw [List.mem_singleton.1 hv]
            exact h.2
          cases a with
          | effect e => exact .acted e (fun _ h => h.1) [.task more] hmore (.refl _)
          | request e =>
              have hasked : ∀ after : List (Work ε), after.Perm
                  (((h.ask e s.host).2.map fun q => Work.task [.effect q.2]).toList
                    ++ ([.task more] ++ toDo rest s)) →
                  Stepped h (.task (.request e :: more)) s (toDo rest s) after
                    (h.ask e s.host).1 :=
                fun _ hperm => .asked e (fun _ hp => hp.1) [.task more] hmore hperm
              simp only [step]
              rcases hask : h.ask e s.host with ⟨host, none | ⟨queue, e'⟩⟩
              · rw [hask] at hasked
                exact hasked _ (.refl _)
              · rw [hask] at hasked
                exact hasked _ (toDo_defer ..)
          | defer queue task =>
              refine .moved [.task task, .task more] (fun p h v hv => ?_) (toDo_defer ..)
              rcases List.mem_cons.1 hv with rfl | hv
              · exact h.1
              · exact hmore p h v hv
          | runTurn queue report =>
              refine .moved [.report (report (s.pending queue)), .task more]
                (fun p h v hv => ?_) (toDo_take ..)
              rcases List.mem_cons.1 hv with rfl | hv
              · exact h.1 _
              · exact hmore p h v hv
          | drain queue report =>
              refine .moved [.drain queue 0 report, .task more] (fun p h v hv => ?_) (.refl _)
              rcases List.mem_cons.1 hv with rfl | hv
              · exact h.1
              · exact hmore p h v hv

-- ====================================================== orderly hosts

/-- A host that is in order, while nothing that is to be done would bring it
out of order. -/
structure Orderly (p : ε → Prop) (P : σ → Prop) (stack : List (Work ε)) (s : State ε σ) :
    Prop where
  host : P s.host
  toDo : ∀ v ∈ toDo stack s, v.All p

section Orderly

variable {h : Host ε σ} {p : ε → Prop} {P : σ → Prop}
  (hact : ∀ e, p e → ∀ x, P x → P (h.act e x))
  (hask : ∀ e, p e → ∀ x, P x → P (h.ask e x).1 ∧ ∀ q ∈ (h.ask e x).2, p q.2)

include hact hask in
theorem Orderly.step {w : Work ε} {rest : List (Work ε)} {s : State ε σ}
    (ho : Orderly p P (w :: rest) s) :
    Orderly p P (step h w rest s).1 (step h w rest s).2 := by
  have hw : w.All p := ho.toDo w List.mem_cons_self
  have hafter : ∀ {parts after : List (Work ε)},
      (∀ q, w.All q → ∀ v ∈ parts, v.All q) → after.Perm (parts ++ Turn.toDo rest s) →
      ∀ v ∈ after, v.All p := by
    intro parts after hparts hperm v hv
    rcases List.mem_append.1 (hperm.mem_iff.1 hv) with hv | hv
    · exact hparts _ hw v hv
    · exact ho.toDo v (List.mem_cons_of_mem w hv)
  have hcases := step_cases h w rest s
  suffices hall : P (Turn.step h w rest s).2.host ∧
      ∀ v ∈ Turn.toDo (Turn.step h w rest s).1 (Turn.step h w rest s).2, v.All p from
    ⟨hall.1, hall.2⟩
  generalize (Turn.step h w rest s).2.host = host at hcases ⊢
  cases hcases with
  | moved parts hparts hperm => exact ⟨ho.host, hafter hparts hperm⟩
  | acted e he parts hparts hperm => exact ⟨hact e (he p hw) _ ho.host, hafter hparts hperm⟩
  | asked e he parts hparts hperm =>
      obtain ⟨hhost, hdeferred⟩ := hask e (he p hw) _ ho.host
      refine ⟨hhost, fun v hv => ?_⟩
      -- what was deferred comes on top of what a step leaves otherwise
      rcases List.mem_append.1 (hperm.mem_iff.1 hv) with hv | hv
      · obtain ⟨q, hq, rfl⟩ := Option.map_eq_some_iff.1 (Option.mem_toList.1 hv)
        exact ⟨hdeferred q hq, trivial⟩
      · exact hafter hparts (.refl _) v hv

include hact hask in
/-- Effects that keep a host in order, and defer nothing else, keep it in order
whenever they are carried out. -/
theorem perform_orderly {actions : Task ε} {s : State ε σ} (hhost : P s.host)
    (hwaiting : ∀ w ∈ s.waiting, taskAll p w.2) (hactions : taskAll p actions) :
    P (perform h actions s).host ∧ ∀ w ∈ (perform h actions s).waiting, taskAll p w.2 := by
  have hstart : Orderly p P [.task actions] s := by
    refine ⟨hhost, fun v hv => ?_⟩
    rcases List.mem_cons.1 hv with rfl | hv
    · exact hactions
    · obtain ⟨w, hw, rfl⟩ := List.mem_map.1 hv
      exact hwaiting w hw
  have hend : Orderly p P [] (perform h actions s) :=
    run_keeps h _ (fun _ _ _ ho => ho.step hact hask) _ s hstart
  exact ⟨hend.host, fun w hw => hend.toDo (.task w.2) (List.mem_map.2 ⟨w, hw, rfl⟩)⟩

end Orderly

-- ================================================== batches of one effect each

/-- Tasks of one effect each are run off by their effects, one after the other. -/
theorem run_effects (h : Host ε σ) (effects : List ε) (rest : List (Work ε)) :
    ∀ s : State ε σ, run h (effects.map (fun e => .task [.effect e]) ++ rest) s
      = run h rest { s with host := effects.foldl (fun x e => h.act e x) s.host } := by
  induction effects with
  | nil => exact fun _ => rfl
  | cons e more ih =>
      intro s
      rw [List.map_cons, List.cons_append, run, step, run, step]
      exact ih _

/-- A turn on a queue of such tasks takes them out, and has their effects. -/
theorem perform_runTurn {h : Host ε σ} {s : State ε σ} {queue : Nat} {effects : List ε}
    (hbatch : s.batch queue = effects.map fun e => [.effect e]) (report : Nat → ε) :
    perform h [.runTurn queue report] s
      = { s.take queue with
          host := h.act (report effects.length)
            (effects.foldl (fun x e => h.act e x) s.host) } := by
  have hworks : (s.batch queue).map Work.task
      = effects.map fun e => Work.task [.effect e] := by
    rw [hbatch, List.map_map]
    rfl
  have hcount : s.pending queue = effects.length := by
    rw [State.pending, hbatch, List.length_map]
  unfold perform
  rw [run, step, hworks, hcount, run_effects, run, step, run, step, run]
  rfl

/-- So does draining, since the tasks defer nothing more. -/
theorem perform_drain {h : Host ε σ} {s : State ε σ} {queue : Nat} {effects : List ε}
    (hbatch : s.batch queue = effects.map fun e => [.effect e]) (report : Nat → ε) :
    perform h [.drain queue report] s
      = { s.take queue with
          host := h.act (report effects.length)
            (effects.foldl (fun x e => h.act e x) s.host) } := by
  have htaken : ∀ host, ({ s.take queue with host } : State ε σ).batch queue = [] := fun host => by
    simp [State.batch, State.take]
  have hworks : (s.batch queue).map Work.task
      = effects.map fun e => Work.task [.effect e] := by
    rw [hbatch, List.map_map]
    rfl
  unfold perform
  rw [run, step, run, step]
  cases effects with
  | nil =>
      have hnone : s.batch queue = [] := hbatch
      have hkept : s.waiting.filter (·.1 ≠ queue) = s.waiting := by
        rw [List.filter_eq_self]
        intro t ht
        have hother := List.map_eq_nil_iff.1 hnone
        rw [List.filter_eq_nil_iff] at hother
        simpa using hother t ht
      rw [hnone]
      simp only
      rw [run, step, run, step, run]
      unfold State.take
      rw [hkept]
      rfl
  | cons e more =>
      cases hb : s.batch queue with
      | nil =>
          rw [hb] at hbatch
          cases hbatch
      | cons t ts =>
          simp only
          rw [← hb, hworks, run_effects, run, step, htaken]
          simp only
          rw [run, step, run, step, run]
          simp [hbatch, State.take]

end TransformCache.Turn
