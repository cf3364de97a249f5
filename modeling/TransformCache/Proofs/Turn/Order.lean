/-
A queue loses no task, runs none twice, and keeps their order.

# Tasks of any kind

For the order of tasks it does not matter what a task is. A `Conduct` says what
running one does to a state, and which tasks it defers; it may go by what the
state is, and the tasks may go on deferring for ever. A `Line` is a queue of such
tasks together with its record: all tasks that were deferred to it, and all
that it ran. A turn takes the waiting tasks out before it runs the first of
them, so that what they defer lines up behind (`runTurn_eq`).

Draining need not end, so it is a relation. It ends if the tasks that are ever
deferred are finitely many (`drains_of_bounded`): a turn that runs something
adds to the tasks that were run, which are among those that were deferred.

# Tasks as data

The tasks that a host carries out are lists of actions. One that runs no turns
itself has a conduct (`perform_simple`), and what is called on its queue is what
is called on a line (`Follows.performed`). Their deferrals are finite trees, so
draining always ends.
-/
import TransformCache.Proofs.Turn

namespace TransformCache.Turn

-- ======================================================== tasks of any kind

/-- What tasks of a kind do: the state after one has run, and the tasks that it
deferred, in order. -/
abbrev Conduct (τ σ : Type) := τ → σ → σ × List τ

/-- A queue with its record. -/
structure Line (τ σ : Type) where
  host : σ
  waiting : List τ := []
  /-- All tasks that were ever deferred, in the order they were. -/
  deferred : List τ := []
  /-- All tasks that were run, in the order they were. -/
  ran : List τ := []

/-- What can be asked of a queue. A caller makes something of the number of
tasks that it is answered with. -/
inductive Call (τ ρ : Type) where
  | defer (task : τ)
  | runTurn (report : Nat → ρ)
  | drain (report : Nat → ρ)

namespace Line

variable {τ ρ σ : Type}

def defer (l : Line τ σ) (t : τ) : Line τ σ :=
  { l with waiting := l.waiting ++ [t], deferred := l.deferred ++ [t] }

/-- Runs a task that was taken out of the queue. -/
def runTask (conduct : Conduct τ σ) (l : Line τ σ) (t : τ) : Line τ σ :=
  let (host, tasks) := conduct t l.host
  tasks.foldl defer { l with host, ran := l.ran ++ [t] }

/-- Takes all tasks out and runs them. Answers how many they are. -/
def runTurn (conduct : Conduct τ σ) (l : Line τ σ) : Nat × Line τ σ :=
  (l.waiting.length, l.waiting.foldl (runTask conduct) { l with waiting := [] })

/-- Turns are run until one runs nothing; their numbers are added up. -/
inductive Drains (conduct : Conduct τ σ) : Line τ σ → Nat → Line τ σ → Prop
  | idle {l : Line τ σ} (hran : (l.runTurn conduct).1 = 0) :
      Drains conduct l 0 (l.runTurn conduct).2
  | turn {l after : Line τ σ} {n : Nat} (hran : (l.runTurn conduct).1 ≠ 0)
      (hrest : Drains conduct (l.runTurn conduct).2 n after) :
      Drains conduct l ((l.runTurn conduct).1 + n) after

/-- The caller makes something of a number. -/
def tell (told : ρ → σ → σ) (r : ρ) (l : Line τ σ) : Line τ σ := { l with host := told r l.host }

/-- Where calls lead, if each of them returns. -/
inductive After (conduct : Conduct τ σ) (told : ρ → σ → σ) :
    List (Call τ ρ) → Line τ σ → Line τ σ → Prop
  | nil (l : Line τ σ) : After conduct told [] l l
  | defer {l after : Line τ σ} {calls : List (Call τ ρ)} (t : τ)
      (hrest : After conduct told calls (l.defer t) after) :
      After conduct told (.defer t :: calls) l after
  | runTurn {l after : Line τ σ} {calls : List (Call τ ρ)} (report : Nat → ρ)
      (hrest : After conduct told calls
        (tell told (report (l.runTurn conduct).1) (l.runTurn conduct).2) after) :
      After conduct told (.runTurn report :: calls) l after
  | drain {l drained after : Line τ σ} {n : Nat} {calls : List (Call τ ρ)} (report : Nat → ρ)
      (hdrains : Drains conduct l n drained)
      (hrest : After conduct told calls (tell told (report n) drained) after) :
      After conduct told (.drain report :: calls) l after

/-- The tasks run so far and the tasks that wait are all that were deferred. -/
def InOrder (l : Line τ σ) : Prop := l.ran ++ l.waiting = l.deferred

/-- The tree of deferrals is finite: however many turns are run, there are never
more tasks than so many. -/
def Bounded (conduct : Conduct τ σ) (l : Line τ σ) : Prop :=
  ∃ bound, ∀ k, ((fun l => (l.runTurn conduct).2)^[k] l).deferred.length ≤ bound

-- ------------------------------------------------------------ what calls do

variable {conduct : Conduct τ σ} {told : ρ → σ → σ}

theorem foldl_defer (tasks : List τ) :
    ∀ l : Line τ σ, tasks.foldl defer l
      = { l with waiting := l.waiting ++ tasks, deferred := l.deferred ++ tasks } := by
  induction tasks with
  | nil => intro l; simp
  | cons t rest ih =>
      intro l
      rw [List.foldl_cons, ih]
      simp [defer]

theorem runTask_eq (conduct : Conduct τ σ) (l : Line τ σ) (t : τ) :
    runTask conduct l t
      = { host := (conduct t l.host).1
          waiting := l.waiting ++ (conduct t l.host).2
          deferred := l.deferred ++ (conduct t l.host).2
          ran := l.ran ++ [t] } := foldl_defer ..

/-- Tasks that run go down in the record, and what they defer lines up. -/
theorem foldl_runTask (conduct : Conduct τ σ) (tasks : List τ) :
    ∀ l : Line τ σ, ∃ host more, tasks.foldl (runTask conduct) l
      = { host, waiting := l.waiting ++ more, deferred := l.deferred ++ more,
          ran := l.ran ++ tasks } := by
  induction tasks with
  | nil => intro l; exact ⟨l.host, [], by simp⟩
  | cons t rest ih =>
      intro l
      obtain ⟨host, more, heq⟩ := ih (runTask conduct l t)
      refine ⟨host, (conduct t l.host).2 ++ more, ?_⟩
      rw [List.foldl_cons, heq, runTask_eq]
      simp

/-- A turn runs the tasks that waited. Those deferred meanwhile wait after it. -/
theorem runTurn_eq (conduct : Conduct τ σ) (l : Line τ σ) :
    ∃ host more, (l.runTurn conduct).2
      = { host, waiting := more, deferred := l.deferred ++ more, ran := l.ran ++ l.waiting } := by
  obtain ⟨host, more, heq⟩ := foldl_runTask conduct l.waiting { l with waiting := [] }
  exact ⟨host, more, heq⟩

theorem runTurn_of_idle (conduct : Conduct τ σ) {l : Line τ σ} (h : l.waiting = []) :
    (l.runTurn conduct).2 = l := by
  obtain ⟨host, waiting, deferred, ran⟩ := l
  cases h
  rfl

theorem runTurn_eq_zero_iff {l : Line τ σ} : (l.runTurn conduct).1 = 0 ↔ l.waiting = [] :=
  List.length_eq_zero_iff

theorem InOrder.defer {l : Line τ σ} (h : l.InOrder) (t : τ) : (l.defer t).InOrder := by
  show l.ran ++ (l.waiting ++ [t]) = l.deferred ++ [t]
  rw [← List.append_assoc, h]

theorem InOrder.runTurn {l : Line τ σ} (h : l.InOrder) (conduct : Conduct τ σ) :
    (l.runTurn conduct).2.InOrder := by
  obtain ⟨host, more, heq⟩ := runTurn_eq conduct l
  rw [heq]
  show l.ran ++ l.waiting ++ more = l.deferred ++ more
  rw [h]

/-- Draining empties the queue, and answers how many tasks it ran. -/
theorem Drains.spec {l after : Line τ σ} {n : Nat} (h : Drains conduct l n after) :
    after.waiting = [] ∧ after.ran.length = l.ran.length + n ∧ (l.InOrder → after.InOrder) := by
  induction h with
  | @idle l hran =>
      have hidle := runTurn_eq_zero_iff.1 hran
      rw [runTurn_of_idle conduct hidle]
      exact ⟨hidle, rfl, id⟩
  | @turn l after n hran hrest ih =>
      obtain ⟨hwaiting, hlength, horder⟩ := ih
      obtain ⟨host, more, heq⟩ := runTurn_eq conduct l
      refine ⟨hwaiting, ?_, fun h => horder (h.runTurn conduct)⟩
      rw [hlength, heq]
      show (l.ran ++ l.waiting).length + n = l.ran.length + (l.waiting.length + n)
      rw [List.length_append, Nat.add_assoc]

theorem After.inOrder {calls : List (Call τ ρ)} {l after : Line τ σ}
    (h : After conduct told calls l after) (hl : l.InOrder) : after.InOrder := by
  induction h with
  | nil => exact hl
  | defer t _ ih => exact ih (hl.defer t)
  | runTurn report _ ih => exact ih (hl.runTurn conduct)
  | drain report hdrains _ ih => exact ih (hdrains.spec.2.2 hl)

/-- Draining ends, if there are finitely many tasks to run. -/
theorem drains_of_bounded {l : Line τ σ} (hbounded : l.Bounded conduct) (hl : l.InOrder) :
    ∃ n after, Drains conduct l n after := by
  obtain ⟨bound, hbound⟩ := hbounded
  -- by how many tasks at most are still to be run
  induction hleft : bound - l.ran.length using Nat.strongRecOn generalizing l with
  | ind left ih =>
      by_cases hidle : (l.runTurn conduct).1 = 0
      · exact ⟨0, _, .idle hidle⟩
      · have hnext : ∀ k, ((fun l => (l.runTurn conduct).2)^[k]
            (l.runTurn conduct).2).deferred.length ≤ bound := fun k => hbound (k + 1)
        have hall : (l.runTurn conduct).2.deferred.length ≤ bound := hnext 0
        have hran : (l.runTurn conduct).2.ran.length = l.ran.length + l.waiting.length := by
          obtain ⟨host, more, heq⟩ := runTurn_eq conduct l
          rw [heq]
          exact List.length_append
        have hwaits : 0 < l.waiting.length := Nat.pos_of_ne_zero hidle
        have hamong := congrArg List.length (hl.runTurn conduct)
        rw [List.length_append] at hamong
        have hless : bound - (l.runTurn conduct).2.ran.length < left := by omega
        obtain ⟨n, after, hdrains⟩ := ih _ hless (hl.runTurn conduct) hnext rfl
        exact ⟨_, after, .turn hidle hdrains⟩

/-- What is drained in the end was finite. -/
theorem bounded_of_drains {l after : Line τ σ} {n : Nat} (h : Drains conduct l n after) :
    l.Bounded conduct := by
  induction h with
  | @idle l hran =>
      have hsame := runTurn_of_idle conduct (runTurn_eq_zero_iff.1 hran)
      exact ⟨l.deferred.length, fun k => Nat.le_of_eq (by rw [Function.iterate_fixed hsame])⟩
  | @turn l after n hran hrest ih =>
      obtain ⟨bound, hbound⟩ := ih
      refine ⟨max l.deferred.length bound, fun k => ?_⟩
      cases k with
      | zero => exact Nat.le_max_left ..
      | succ k => exact Nat.le_trans (hbound k) (Nat.le_max_right ..)

end Line

-- =========================================================== tasks as data

variable {ε σ : Type}

mutual

/-- An action that runs no turns, and defers no task that does. -/
def Action.Simple : Action ε → Prop
  | .effect _ => True
  | .request _ => True
  | .defer _ task => taskSimple task
  | .runTurn .. => False
  | .drain .. => False

def taskSimple : List (Action ε) → Prop
  | [] => True
  | a :: rest => a.Simple ∧ taskSimple rest

end

/-- What a task does by itself, as far as one queue is concerned. -/
def conduct (h : Host ε σ) (queue : Nat) : Conduct (Task ε) σ := fun task x =>
  let s := perform h task { host := x }
  (s.host, s.batch queue)

def Call.action (queue : Nat) : Call (Task ε) ε → Action ε
  | .defer task => .defer queue task
  | .runTurn report => .runTurn queue report
  | .drain report => .drain queue report

/-- Only tasks that run no turns are deferred. -/
def Call.Simple : Call (Task ε) ε → Prop
  | .defer task => taskSimple task
  | _ => True

-- --------------------------------------------------------- one after another

/-- A step leaves alone what lies below. -/
theorem step_append (h : Host ε σ) (w : Work ε) (rest later : List (Work ε)) (s : State ε σ) :
    step h w (rest ++ later) s = ((step h w rest s).1 ++ later, (step h w rest s).2) := by
  cases w with
  | report e => rfl
  | drain queue ran report =>
      simp only [step]
      split
      · rfl
      · simp
  | task actions =>
      cases actions with
      | nil => rfl
      | cons a more =>
          cases a with
          | request e =>
              simp only [step]
              split <;> rfl
          | runTurn queue report => simp [step]
          | _ => rfl

/-- Work is worked off before what lies below it. -/
theorem run_append (h : Host ε σ) (stack later : List (Work ε)) (s : State ε σ) :
    run h (stack ++ later) s = run h later (run h stack s) := by
  induction stack, s using run.induct h with
  | case1 s => rw [List.nil_append, run.eq_1 h s]
  | case2 s w rest ih =>
      rw [List.cons_append, run, step_append, run]
      exact ih

section Perform

variable (h : Host ε σ)

theorem perform_nil (s : State ε σ) : perform h [] s = s := by
  rw [perform, run, step, run]

theorem perform_effect (e : ε) (more : Task ε) (s : State ε σ) :
    perform h (.effect e :: more) s = perform h more { s with host := h.act e s.host } := by
  rw [perform, run, step]
  rfl

theorem perform_request (e : ε) (more : Task ε) (s : State ε σ) :
    perform h (.request e :: more) s
      = perform h more
        { waiting := s.waiting ++ ((h.ask e s.host).2.map fun q => (q.1, [.effect q.2])).toList
          host := (h.ask e s.host).1 } := by
  rw [perform, run, step]
  rcases h.ask e s.host with ⟨host, none | ⟨queue, e'⟩⟩
  · simp [perform]
  · rfl

theorem perform_defer (queue : Nat) (task more : Task ε) (s : State ε σ) :
    perform h (.defer queue task :: more) s = perform h more (s.defer queue task) := by
  rw [perform, run, step]
  rfl

/-- A turn is the tasks of its batch, one after the other. -/
theorem perform_turn (queue : Nat) (report : Nat → ε) (more : Task ε) (s : State ε σ) :
    let turned := run h ((s.batch queue).map .task) (s.take queue)
    perform h (.runTurn queue report :: more) s
      = perform h more { turned with host := h.act (report (s.pending queue)) turned.host } := by
  rw [perform, run, step]
  simp only [run_append]
  rw [run, step]
  rfl

end Perform

-- --------------------------------------------------- tasks that run no turns

theorem batch_append (s : State ε σ) (queue : Nat) (more : List (Nat × Task ε)) (x : σ) :
    State.batch (⟨s.waiting ++ more, x⟩ : State ε σ) queue
      = s.batch queue ++ State.batch (⟨more, x⟩ : State ε σ) queue := by
  simp [State.batch]

/-- What a task that runs no turns does depends on the host alone, and what it
defers is added to what waits. -/
theorem perform_simple (h : Host ε σ) {task : Task ε} (hsimple : taskSimple task) :
    ∀ s : State ε σ,
      perform h task s
        = { waiting := s.waiting ++ (perform h task { host := s.host }).waiting
            host := (perform h task { host := s.host }).host } ∧
      ∀ w ∈ (perform h task { host := s.host }).waiting, taskSimple w.2 := by
  induction task with
  | nil =>
      intro s
      simp [perform_nil]
  | cons a more ih =>
      obtain ⟨ha, hmore⟩ := hsimple
      -- what the first action adds, the rest adds to
      have hadd : ∀ (s : State ε σ) (added : List (Nat × Task ε)) (x : σ),
          (∀ w ∈ added, taskSimple w.2) →
          perform h more ⟨s.waiting ++ added, x⟩
            = { waiting := s.waiting ++ (perform h more ⟨added, x⟩).waiting
                host := (perform h more ⟨added, x⟩).host } ∧
          ∀ w ∈ (perform h more ⟨added, x⟩).waiting, taskSimple w.2 := by
        intro s added x hadded
        obtain ⟨hall, hsimple⟩ := ih hmore ⟨s.waiting ++ added, x⟩
        obtain ⟨hbare, -⟩ := ih hmore ⟨added, x⟩
        rw [hall, hbare]
        refine ⟨by simp, fun w hw => ?_⟩
        rcases List.mem_append.1 hw with hw | hw
        · exact hadded w hw
        · exact hsimple w hw
      intro s
      cases a with
      | effect e =>
          rw [perform_effect, perform_effect]
          exact ih hmore { s with host := h.act e s.host }
      | request e =>
          rw [perform_request, perform_request]
          refine hadd s _ _ fun w hw => ?_
          obtain ⟨q, -, rfl⟩ := Option.map_eq_some_iff.1 (Option.mem_toList.1 hw)
          exact ⟨trivial, trivial⟩
      | defer queue task =>
          rw [perform_defer, perform_defer]
          refine hadd s [(queue, task)] s.host fun w hw => ?_
          rw [List.mem_singleton.1 hw]
          exact ha
      | runTurn queue report => exact ha.elim
      | drain queue report => exact ha.elim

-- ------------------------------------------------------- queues that are lines

/-- A queue is a line: it has the same tasks waiting, over the same state. None
of them runs turns. -/
structure Follows (queue : Nat) (s : State ε σ) (l : Line (Task ε) σ) : Prop where
  host : s.host = l.host
  waiting : s.batch queue = l.waiting
  simple : ∀ task ∈ l.waiting, taskSimple task

section Follows

variable {h : Host ε σ} {queue : Nat} {s : State ε σ} {l : Line (Task ε) σ}

theorem Follows.tell (hf : Follows queue s l) (r : ε) :
    Follows queue { s with host := h.act r s.host } (Line.tell h.act r l) where
  host := congrArg (h.act r) hf.host
  waiting := hf.waiting
  simple := hf.simple

theorem Follows.defer (hf : Follows queue s l) {task : Task ε} (hsimple : taskSimple task) :
    Follows queue (s.defer queue task) (l.defer task) where
  host := hf.host
  waiting := by
    have hone : State.batch (⟨[(queue, task)], s.host⟩ : State ε σ) queue = [task] := by
      simp [State.batch]
    show State.batch ⟨s.waiting ++ [(queue, task)], s.host⟩ queue = l.waiting ++ [task]
    rw [batch_append, hf.waiting, hone]
  simple := List.forall_mem_append.2 ⟨hf.simple, List.forall_mem_singleton.2 hsimple⟩

/-- A task that runs does to a queue what its conduct does to a line. -/
theorem Follows.perform (hf : Follows queue s l) {task : Task ε} (hsimple : taskSimple task) :
    Follows queue (perform h task s) (l.runTask (conduct h queue) task) := by
  obtain ⟨heq, hadded⟩ := perform_simple h hsimple s
  rw [Line.runTask_eq, heq]
  refine ⟨congrArg (fun x => (Turn.perform h task ({ host := x } : State ε σ)).host) hf.host, ?_, ?_⟩
  · show State.batch ⟨s.waiting ++ _, _⟩ queue = l.waiting ++ _
    rw [batch_append, hf.waiting, hf.host]
    rfl
  · rw [hf.host] at hadded
    refine List.forall_mem_append.2 ⟨hf.simple, fun t ht => ?_⟩
    obtain ⟨w, hw, rfl⟩ := List.mem_map.1 ht
    exact hadded w (List.mem_filter.1 hw).1

/-- So do tasks that run one after the other. -/
theorem Follows.run {tasks : List (Task ε)} (hsimple : ∀ task ∈ tasks, taskSimple task) :
    ∀ {s : State ε σ} {l : Line (Task ε) σ}, Follows queue s l →
      Follows queue (run h (tasks.map .task) s) (tasks.foldl (Line.runTask (conduct h queue)) l) := by
  induction tasks with
  | nil =>
      intro s l hf
      rw [List.map_nil, Turn.run]
      exact hf
  | cons task rest ih =>
      intro s l hf
      rw [List.map_cons, ← List.singleton_append, run_append, List.foldl_cons]
      exact ih (fun t ht => hsimple t (List.mem_cons_of_mem _ ht))
        (hf.perform (hsimple task List.mem_cons_self))

theorem Follows.turn (hf : Follows queue s l) :
    Follows queue (Turn.run h ((s.batch queue).map .task) (s.take queue))
      (l.runTurn (conduct h queue)).2 := by
  have htaken : Follows queue (s.take queue) { l with waiting := [] } :=
    ⟨hf.host, by simp [State.batch, State.take], fun _ ht => by cases ht⟩
  rw [hf.waiting]
  exact Follows.run hf.simple htaken

/-- Work that is worked off leaves no more than it was. -/
theorem weight_run (h : Host ε σ) (stack : List (Work ε)) (s : State ε σ) :
    waitingWeight (run h stack s).waiting ≤ stackWeight stack + waitingWeight s.waiting := by
  have hend := run_keeps h
    (fun works now => stackWeight works + waitingWeight now.waiting
      ≤ stackWeight stack + waitingWeight s.waiting)
    (fun w rest now hle => Nat.le_trans (Nat.le_of_lt (step_weight_lt h w rest now)) hle)
    stack s (Nat.le_refl _)
  simpa [stackWeight] using hend

/-- The trees of tasks that are data get lower with each turn, so draining
comes to its end. -/
theorem Follows.drain (report : Nat → ε) (hf : Follows queue s l) :
    ∃ n drained after, Line.Drains (conduct h queue) l n drained ∧ Follows queue after drained ∧
      ∀ ran later, Turn.run h (.drain queue ran report :: later) s
        = Turn.run h later { after with host := h.act (report (ran + n)) after.host } := by
  induction hweight : waitingWeight s.waiting using Nat.strongRecOn generalizing s l with
  | ind weight ih =>
      have hturn := hf.turn (h := h)
      cases hbatch : s.batch queue with
      | nil =>
          have hidle : l.waiting = [] := hf.waiting.symm.trans hbatch
          have hsame := Line.runTurn_of_idle (conduct h queue) hidle
          refine ⟨0, _, s, .idle (Line.runTurn_eq_zero_iff.2 hidle), hsame.symm ▸ hf, ?_⟩
          intro ran later
          rw [Turn.run, step]
          simp only [hbatch]
          rw [Turn.run, step]
          rfl
      | cons t ts =>
          have hwaits : (l.runTurn (conduct h queue)).1 ≠ 0 := by
            rw [Ne, Line.runTurn_eq_zero_iff, ← hf.waiting, hbatch]
            exact List.cons_ne_nil t ts
          have hcount : (l.runTurn (conduct h queue)).1 = (s.batch queue).length :=
            congrArg List.length hf.waiting.symm
          have hless : waitingWeight
              (Turn.run h ((s.batch queue).map .task) (s.take queue)).waiting < weight := by
            have hle := weight_run h ((s.batch queue).map .task) (s.take queue)
            have htake := waitingWeight_take s queue
            have hpending : 0 < s.pending queue := by
              rw [State.pending, hbatch]
              exact Nat.succ_pos _
            omega
          obtain ⟨n, drained, after, hdrains, hafter, hrun⟩ := ih _ hless hturn rfl
          refine ⟨_, drained, after, .turn hwaits hdrains, hafter, fun ran later => ?_⟩
          rw [Turn.run, step]
          simp only [hbatch]
          rw [← hbatch, run_append, hrun, hcount, Nat.add_assoc]

/-- What is called on a queue is what is called on its line. -/
theorem Follows.performed {calls : List (Call (Task ε) ε)} (hsimple : ∀ c ∈ calls, c.Simple) :
    ∀ {s : State ε σ} {l : Line (Task ε) σ}, Follows queue s l →
      ∃ after, Line.After (conduct h queue) h.act calls l after ∧
        Follows queue (Turn.perform h (calls.map (Call.action queue)) s) after := by
  induction calls with
  | nil =>
      intro s l hf
      rw [List.map_nil, perform_nil]
      exact ⟨l, .nil l, hf⟩
  | cons c rest ih =>
      obtain ⟨hc, hrest⟩ := List.forall_mem_cons.1 hsimple
      intro s l hf
      cases c with
      | defer task =>
          obtain ⟨after, hafter, hend⟩ := ih hrest (hf.defer hc)
          refine ⟨after, .defer task hafter, ?_⟩
          rw [List.map_cons, Call.action, perform_defer]
          exact hend
      | runTurn report =>
          obtain ⟨after, hafter, hend⟩ := ih hrest
            (hf.turn.tell (h := h) (report (l.runTurn (conduct h queue)).1))
          refine ⟨after, .runTurn report hafter, ?_⟩
          have hcount : s.pending queue = (l.runTurn (conduct h queue)).1 :=
            congrArg List.length hf.waiting
          rw [List.map_cons, Call.action, perform_turn, hcount]
          exact hend
      | drain report =>
          obtain ⟨n, drained, now, hdrains, hnow, hrun⟩ := hf.drain (h := h) report
          obtain ⟨after, hafter, hend⟩ := ih hrest (hnow.tell (h := h) (report n))
          refine ⟨after, .drain report hdrains hafter, ?_⟩
          rw [List.map_cons, Call.action, Turn.perform, Turn.run, step, hrun, Nat.zero_add]
          exact hend

end Follows

-- ================================================================ the order

/-- The queue of a host is a line, whatever is called on it. On a line, at the
end of any calls, the tasks run so far and those that wait are all that were
deferred, in order. A turn runs the tasks that waited, answers how many they
were, and leaves those deferred meanwhile waiting. Draining ends if and only if
there are finitely many tasks to run; then nothing waits, and the answer is the
number of tasks that it ran. -/
theorem tasks_in_order :
    (∀ {ε σ : Type} (h : Host ε σ) (queue : Nat) (calls : List (Call (Task ε) ε))
        (s : State ε σ), (∀ c ∈ calls, c.Simple) → s.batch queue = [] →
      ∃ l, Line.After (conduct h queue) h.act calls { host := s.host } l ∧
        (perform h (calls.map (Call.action queue)) s).host = l.host ∧
        (perform h (calls.map (Call.action queue)) s).batch queue = l.waiting) ∧
    ∀ {τ ρ σ : Type} (conduct : Conduct τ σ) (told : ρ → σ → σ) (calls : List (Call τ ρ))
        (x : σ) (l : Line τ σ), Line.After conduct told calls { host := x } l →
      l.ran ++ l.waiting = l.deferred ∧
      ((l.runTurn conduct).1 = l.waiting.length ∧
        (l.runTurn conduct).2.ran = l.ran ++ l.waiting ∧
        (l.runTurn conduct).2.deferred = l.deferred ++ (l.runTurn conduct).2.waiting) ∧
      ((∃ n after, Line.Drains conduct l n after) ↔ l.Bounded conduct) ∧
      ∀ n after, Line.Drains conduct l n after →
        after.waiting = [] ∧ after.ran.length = l.ran.length + n := by
  constructor
  · intro ε σ h queue calls s hsimple hempty
    have hstart : Follows queue s { host := s.host } := ⟨rfl, hempty, fun _ ht => by cases ht⟩
    obtain ⟨l, hafter, hend⟩ := hstart.performed hsimple
    exact ⟨l, hafter, hend.host, hend.waiting⟩
  · intro τ ρ σ conduct told calls x l hafter
    have horder : l.InOrder := hafter.inOrder rfl
    refine ⟨horder, ⟨rfl, ?_⟩, ?_, fun n after hdrains => ?_⟩
    · obtain ⟨host, more, heq⟩ := l.runTurn_eq conduct
      rw [heq]
      exact ⟨rfl, rfl⟩
    · constructor
      · rintro ⟨n, after, hdrains⟩
        exact Line.bounded_of_drains hdrains
      · intro hbounded
        exact Line.drains_of_bounded hbounded horder
    · obtain ⟨hwaiting, hlength, -⟩ := hdrains.spec
      exact ⟨hwaiting, hlength⟩

/-- A host that writes its effects down, and defers one more for each request. -/
def diary : Host Nat (List Nat) where
  act e x := x ++ [e]
  ask e x := (x ++ [e], some (0, e + 1))

/-- A task that defers a task that defers a task, a request, a turn, and a
drain. -/
def dayPlan : List (Call (Task Nat) Nat) :=
  [.defer [.effect 1, .defer 0 [.effect 3, .defer 0 [.effect 4]], .effect 2],
    .defer [.request 5], .runTurn (100 + ·), .defer [.effect 7], .drain (200 + ·)]

example : (perform diary (dayPlan.map (Call.action 0)) { host := [] }).host
    = [1, 2, 5, 102, 3, 6, 7, 4, 204] := by decide +kernel

/-- A task of a number adds it, and defers the task of the number before. -/
def countdown : Conduct Nat Nat := fun n x =>
  (x + n, match n with
    | 0 => []
    | m + 1 => [m])

theorem tasks_in_order_countdown :
    ((∀ c ∈ dayPlan, c.Simple) ∧
      ∃ l, Line.After (conduct diary 0) diary.act dayPlan { host := [] } l ∧
        (perform diary (dayPlan.map (Call.action 0)) { host := [] }).host = l.host ∧
        (perform diary (dayPlan.map (Call.action 0)) { host := [] }).batch 0 = l.waiting) ∧
    let l : Line Nat Nat := { host := 3, waiting := [1], deferred := [2, 1], ran := [2] }
    let after : Line Nat Nat := { host := 4, deferred := [2, 1, 0], ran := [2, 1, 0] }
    Line.After countdown (fun n x => x + n) [.defer 2, .runTurn id] { host := 0 } l ∧
      l.ran ++ l.waiting = l.deferred ∧ (l.runTurn countdown).2.ran = [2, 1] ∧
      l.Bounded countdown ∧ Line.Drains countdown l 2 after ∧
      after.waiting = [] ∧ after.ran.length = l.ran.length + 2 := by
  have hplan : ∀ c ∈ dayPlan, c.Simple := by
    simp [dayPlan, Call.Simple, taskSimple, Action.Simple]
  refine ⟨⟨hplan, tasks_in_order.1 diary 0 dayPlan { host := [] } hplan rfl⟩, ?_⟩
  intro l after
  have hafter : Line.After countdown (fun n x => x + n) [.defer 2, .runTurn id] { host := 0 } l :=
    .defer 2 (.runTurn id (.nil l))
  have hdrains : Line.Drains countdown l 2 after := .turn (by decide) (.turn (by decide) (.idle rfl))
  obtain ⟨horder, ⟨-, hran, -⟩, hiff, hdrained⟩ :=
    tasks_in_order.2 countdown (fun n x => x + n) [.defer 2, .runTurn id] 0 l hafter
  exact ⟨hafter, horder, hran, hiff.1 ⟨2, after, hdrains⟩, hdrains, hdrained 2 after hdrains⟩

end TransformCache.Turn
