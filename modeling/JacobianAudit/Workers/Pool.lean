/-
**Running independent tasks.**

Tasks run one after the other, or in a pool of workers when more than one may be used. One after
the other they share their bindings, and the first fault stops them. In a pool each task runs on
its own copy of the caller's bindings, all of them run to their end, in the order the machine
chooses, and the answers are put back into the order of the tasks; the first fault in that order
is the caller's.

Main definitions:

* `JacobianAudit.Workers.inPool` — all tasks to their end, in the machine's order;
* `JacobianAudit.Workers.collect` — the answers in the order of the tasks;
* `JacobianAudit.Workers.run` — one after the other or in a pool.
-/

import JacobianAudit.Action

set_option autoImplicit false

namespace JacobianAudit.Workers

variable {σ β : Type}

/-- Runs each of the numbered tasks to its end on its own copy of the bindings. The tasks do not
overlap here, they come in some order. So the calls that overlapping threads make are known up to a
shuffle only, in which those of each task keep their order. -/
def inPool (tasks : List (Nat × Action σ β)) : Action σ (List (Nat × Except Fault β)) :=
  tasks.mapM fun task => do return (task.1, ← (task.2.isolated).attempt)

/-- The tasks with their numbers, in a given order. -/
def arrange (tasks : List (Action σ β)) (order : List Nat) : List (Nat × Action σ β) :=
  order.filterMap fun i => tasks[i]?.map fun task => (i, task)

/-- The answers in the order of the tasks, or the first fault in that order. -/
def collect (answers : List (Nat × Except Fault β)) : Except Fault (List β) :=
  (answers.mergeSort fun a b => a.1 ≤ b.1).mapM Prod.snd

/-- Runs tasks with the number of workers that a setting asks for. -/
def run (setting : Setting) (tasks : List (Action σ β)) : Action σ (List β) := do
  let machine ← read
  let workers ← Action.ofExcept (resolve machine setting (.count tasks.length))
  if 1 < workers then
    let answers ← inPool (arrange tasks (machine.order tasks.length))
    Action.ofExcept (collect answers)
  else
    tasks.mapM id

end JacobianAudit.Workers
