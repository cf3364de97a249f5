/-
Deferred tasks, run a turn at a time.

A host that loads modules must not write its cache in the middle of it, so work is deferred to a
queue and run on a later turn. A turn takes all that waits in its queue; what is deferred while it
runs waits for the next. Draining runs turns until one finds nothing.

A task is data: the actions it takes when it runs, which may defer further tasks and may
themselves run turns. What its effects mean is up to a `Host`. `run` works through a stack of work
that is under way — actions of a task, the unrun rest of a turn's batch, a drain between two
turns — and ends because each step uses up some of the work that was written down (`weight`).
-/

namespace TransformCache.Turn

-- ====================================================== tasks

/-- What a task does. Queues go by number. -/
inductive Action (ε : Type) where
  | effect (e : ε)
  /-- An effect that may ask for another to be deferred. -/
  | request (e : ε)
  | defer (queue : Nat) (task : List (Action ε))
  /-- Runs a turn, and then the effect that its number of tasks makes. -/
  | runTurn (queue : Nat) (report : Nat → ε)
  /-- Runs turns until the queue is empty, and then the effect that the number of all tasks
  makes. -/
  | drain (queue : Nat) (report : Nat → ε)

/-- The actions of a task, in order. -/
abbrev Task (ε : Type) := List (Action ε)

/-- What effects do to the state `σ` of a host. -/
structure Host (ε σ : Type) where
  act : ε → σ → σ
  /-- The effect to defer after a request, and its queue. -/
  ask : ε → σ → σ × Option (Nat × ε)

/-- A host's state, and the tasks that wait, in the order they were deferred. -/
structure State (ε σ : Type) where
  waiting : List (Nat × Task ε) := []
  host : σ

-- ====================================================== steps

/-- Work that is under way. -/
inductive Work (ε : Type) where
  | task (actions : Task ε)
  | report (e : ε)
  | drain (queue ran : Nat) (report : Nat → ε)

variable {ε σ : Type}

namespace State

/-- The tasks that wait in a queue. -/
def batch (s : State ε σ) (queue : Nat) : List (Task ε) :=
  (s.waiting.filter (·.1 = queue)).map (·.2)

/-- How many tasks wait in a queue. -/
def pending (s : State ε σ) (queue : Nat) : Nat := (s.batch queue).length

/-- Adds a task at the end of a queue. -/
def defer (s : State ε σ) (queue : Nat) (task : Task ε) : State ε σ :=
  { s with waiting := s.waiting ++ [(queue, task)] }

/-- Takes everything out of a queue. -/
def take (s : State ε σ) (queue : Nat) : State ε σ :=
  { s with waiting := s.waiting.filter (·.1 ≠ queue) }

end State

/-- One step of the topmost work. -/
def step (h : Host ε σ) (w : Work ε) (rest : List (Work ε)) (s : State ε σ) :
    List (Work ε) × State ε σ :=
  match w with
  | .task [] => (rest, s)
  | .task (.effect e :: more) => (.task more :: rest, { s with host := h.act e s.host })
  | .task (.request e :: more) =>
    match h.ask e s.host with
    | (host, none) => (.task more :: rest, { s with host })
    | (host, some (queue, e)) =>
      (.task more :: rest, { s with host }.defer queue [.effect e])
  | .task (.defer queue task :: more) => (.task more :: rest, s.defer queue task)
  | .task (.runTurn queue report :: more) =>
    ((s.batch queue).map .task ++ .report (report (s.pending queue)) :: .task more :: rest,
      s.take queue)
  | .task (.drain queue report :: more) => (.drain queue 0 report :: .task more :: rest, s)
  | .report e => (rest, { s with host := h.act e s.host })
  | .drain queue ran report =>
    match s.batch queue with
    | [] => (.report (report ran) :: rest, s)
    | t :: ts =>
      ((t :: ts).map .task ++ .drain queue (ran + (t :: ts).length) report :: rest, s.take queue)

-- ====================================================== the measure

mutual

/-- The steps that an action can take, with those of the tasks that it defers. -/
def Action.weight : Action ε → Nat
  | .effect _ => 1
  | .request _ => 4
  | .defer _ task => 2 + taskWeight task
  | .runTurn .. => 2
  | .drain .. => 3

/-- The steps that the actions of a task can take. -/
def taskWeight : List (Action ε) → Nat
  | [] => 1
  | a :: rest => a.weight + taskWeight rest

end

/-- The steps that work under way can take. -/
def Work.weight : Work ε → Nat
  | .task actions => taskWeight actions
  | .report _ => 1
  | .drain .. => 2

/-- The steps of a stack of work. -/
def stackWeight : List (Work ε) → Nat
  | [] => 0
  | w :: rest => w.weight + stackWeight rest

/-- The steps of waiting tasks; each waits one step longer than it runs. -/
def waitingWeight : List (Nat × Task ε) → Nat
  | [] => 0
  | w :: rest => taskWeight w.2 + 1 + waitingWeight rest

theorem stackWeight_cons (w : Work ε) (stack : List (Work ε)) :
    stackWeight (w :: stack) = w.weight + stackWeight stack := rfl

theorem stackWeight_append (a b : List (Work ε)) :
    stackWeight (a ++ b) = stackWeight a + stackWeight b := by
  induction a with
  | nil => simp [stackWeight]
  | cons w rest ih => rw [List.cons_append, stackWeight_cons, stackWeight_cons, ih, Nat.add_assoc]

theorem waitingWeight_append (a b : List (Nat × Task ε)) :
    waitingWeight (a ++ b) = waitingWeight a + waitingWeight b := by
  induction a with
  | nil => simp [waitingWeight]
  | cons w rest ih => simp only [List.cons_append, waitingWeight, ih, Nat.add_assoc]

theorem waitingWeight_defer (s : State ε σ) (queue : Nat) (task : Task ε) :
    waitingWeight (s.defer queue task).waiting
      = waitingWeight s.waiting + taskWeight task + 1 := by
  simp [State.defer, waitingWeight_append, waitingWeight, Nat.add_assoc]

/-- Taking a batch moves its tasks from the queue to the stack, one step lighter each. -/
theorem waitingWeight_take (s : State ε σ) (queue : Nat) :
    waitingWeight (s.take queue).waiting
        + (stackWeight ((s.batch queue).map Work.task) + s.pending queue)
      = waitingWeight s.waiting := by
  obtain ⟨waiting, host⟩ := s
  simp only [State.take, State.batch, State.pending]
  induction waiting with
  | nil => rfl
  | cons w rest ih =>
    by_cases h : w.1 = queue <;> simp_all [Work.weight, waitingWeight, stackWeight] <;> omega

theorem step_weight_lt (h : Host ε σ) (w : Work ε) (rest : List (Work ε)) (s : State ε σ) :
    stackWeight (step h w rest s).1 + waitingWeight (step h w rest s).2.waiting
      < stackWeight (w :: rest) + waitingWeight s.waiting := by
  cases w with
  | report e => simp [step, stackWeight_cons, Work.weight]
  | drain queue ran report =>
    have htake := waitingWeight_take s queue
    simp only [step]
    split
    · simp [stackWeight_cons, Work.weight]
    · rename_i t ts hb
      simp only [State.pending, hb, List.length_cons] at htake
      simp only [stackWeight_append, stackWeight_cons, Work.weight]
      omega
  | task actions =>
    cases actions with
    | nil => simp [step, stackWeight_cons, Work.weight, taskWeight]
    | cons a more =>
      cases a with
      | effect e =>
        simp [step, stackWeight_cons, Work.weight, taskWeight, Action.weight]
      | request e =>
        simp only [step]
        split
        · simp [stackWeight_cons, Work.weight, taskWeight, Action.weight]
        · simp only [stackWeight_cons, Work.weight, taskWeight, Action.weight,
            waitingWeight_defer]
          omega
      | defer queue task =>
        simp only [step, stackWeight_cons, Work.weight, taskWeight, Action.weight,
          waitingWeight_defer]
        omega
      | runTurn queue report =>
        have htake := waitingWeight_take s queue
        simp only [step, stackWeight_append, stackWeight_cons, Work.weight, taskWeight,
          Action.weight]
        omega
      | drain queue report =>
        simp only [step, stackWeight_cons, Work.weight, taskWeight, Action.weight]
        omega

-- ====================================================== running

/-- Works through a stack, the first work first. -/
def run (h : Host ε σ) (stack : List (Work ε)) (s : State ε σ) : State ε σ :=
  match stack with
  | [] => s
  | w :: rest => run h (step h w rest s).1 (step h w rest s).2
termination_by stackWeight stack + waitingWeight s.waiting
decreasing_by exact step_weight_lt h w rest s

def perform (h : Host ε σ) (actions : Task ε) (s : State ε σ) : State ε σ :=
  run h [.task actions] s

end TransformCache.Turn
