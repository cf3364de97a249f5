/-
Deferred tasks that run after a delay.

Where a runtime drives the program, a task is not tied to a turn but comes due some milliseconds
after it was deferred. Deferring never runs anything: also a task without delay runs only when the
clock is looked at next. Outside of a runtime there is no such schedule.
-/

namespace TransformCache.Turn

/-- The delay of a schedule that names none, in milliseconds. -/
def defaultDelay : Nat := 10

/-- Tasks with the times at which they are due, in the order they were deferred. -/
structure Delay (τ : Type) where
  delay : Nat := defaultDelay
  now : Nat := 0
  tasks : List (Nat × τ) := []

namespace Delay

variable {τ : Type}

/-- The schedule of the calling context, if it runs inside a runtime. -/
def current (insideRuntime : Bool) : Option (Delay τ) := if insideRuntime then some {} else none

/-- Sets a task down to run once the delay has passed. -/
def defer (d : Delay τ) (task : τ) : Delay τ :=
  { d with tasks := d.tasks ++ [(d.now + d.delay, task)] }

/-- Lets time pass: the tasks that come due, and the schedule after it. -/
def elapse (d : Delay τ) (milliseconds : Nat) : List τ × Delay τ :=
  let now := d.now + milliseconds
  ((d.tasks.filter (·.1 ≤ now)).map (·.2),
    { d with now, tasks := d.tasks.filter fun t => ¬ t.1 ≤ now })

end Delay

end TransformCache.Turn
