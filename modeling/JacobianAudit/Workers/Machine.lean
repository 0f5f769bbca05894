/-
**The machine and its threads.**

How many threads a computation may use follows from the number requested, the number of tasks, the
processors and the limits set in the environment. The machine also decides in which order the
tasks of a pool are run to their end; every order is a permutation of the tasks.

Main definitions:

* `JacobianAudit.Machine` — processors, environment and scheduling;
* `JacobianAudit.Machine.limit?` — a thread limit set in the environment;
* `JacobianAudit.Machine.threads` — the number of hardware threads that may be used;
* `JacobianAudit.Workers.requested` — the number of workers that a setting asks for;
* `JacobianAudit.Workers.resolve` — the number of workers that are used.
-/

import JacobianAudit.Setting

set_option autoImplicit false

namespace JacobianAudit

/-- What a computation can see of the machine it runs on. -/
structure Machine where
  /-- The number of processors, if it is known. -/
  processors : Option Int
  environment : String → Option String
  /-- The order in which the tasks of a pool are run. -/
  order : Nat → List Nat := List.range
  order_perm : ∀ n, (order n).Perm (List.range n) := by exact fun _ => List.Perm.refl _

namespace Machine

/-- The environment variables that limit the number of threads. -/
def limitVariables : List String :=
  ["OMP_NUM_THREADS", "MKL_NUM_THREADS", "OPENBLAS_NUM_THREADS", "VECLIB_MAXIMUM_THREADS",
   "NUMEXPR_NUM_THREADS"]

/-- The limit that a variable sets: a positive integer. What is unset, empty, malformed or not
positive sets none. -/
def limit? (machine : Machine) (variableName : String) : Option Int := do
  let n ← Text.Numeral.parse? (← machine.environment variableName)
  if 0 < n then some n else none

/-- The limits that are set. -/
def limits (machine : Machine) : List Int := limitVariables.filterMap machine.limit?

/-- The number of processors; an unknown or zero number counts as one. -/
def knownProcessors (machine : Machine) : Int :=
  match machine.processors with
  | none => 1
  | some n => if n = 0 then 1 else n

/-- The number of hardware threads that may be used: the processors, but no more than the least
limit, and at least one. -/
def threads (machine : Machine) : Int :=
  match machine.limits.min? with
  | none => max 1 machine.knownProcessors
  | some least => max 1 (min machine.knownProcessors least)

end Machine

namespace Workers

/-- The number of workers that a setting asks for. What denotes no integer, or none above zero,
asks for one. -/
def requested (setting : Setting) : Except Fault Int :=
  match setting.toInt with
  | .ok n => .ok (if n < 1 then 1 else n)
  | .error .overflow => .error .overflow
  | .error _ => .ok 1

/-- The number of workers that are used: no more than requested, than there are tasks, and than
the machine allows, and at least one. A single worker does not look at the number of tasks. -/
def resolve (machine : Machine) (setting tasks : Setting) : Except Fault Int := do
  let n ← requested setting
  if n = 1 then return 1
  if ← tasks.atMost (.count 1) then return 1
  return max 1 (min (min n (← tasks.toInt)) machine.threads)

end Workers

end JacobianAudit
