/-
**Computations that call back.**

Evaluators and manifolds are supplied by callers and may keep a state of their own; a computation
that calls them logs messages, may be interrupted by a fault, and leaves behind what its callees
did until then. Such a computation is an action: a function of the machine and of the world before
it, which answers with a value or a fault, and with the world after it in either case.

Main definitions:

* `JacobianAudit.World` — what an action can change;
* `JacobianAudit.Action` — the actions;
* `JacobianAudit.Action.attempt` — a fault as a value;
* `JacobianAudit.Action.isolated` — an action on its own copy of the bindings;
* `JacobianAudit.Action.beside` — an action on a part of the callers' state.

Main results:

* `JacobianAudit.Action.perform_bind` — a sequence of actions;
* `JacobianAudit.Action.perform_attempt`, `JacobianAudit.Action.perform_isolated` — what an attempt
  keeps and what isolation drops.
-/

import JacobianAudit.Workers.Machine

set_option autoImplicit false

namespace JacobianAudit

/-- How serious a logged message is. -/
inductive Level where
  | debug
  | warning
  deriving DecidableEq

/-- A logged message. -/
structure Entry where
  level : Level
  text : String
  deriving DecidableEq

/-- What an action can change. -/
structure World (σ : Type) where
  /-- The state that belongs to the callers' own functions. -/
  shared : σ
  /-- Variables of the running task, the latest binding first. -/
  bindings : List (String × Setting) := []
  /-- The messages logged, oldest first. -/
  journal : List Entry := []

/-- A computation that may change the world and may be interrupted by a fault. -/
abbrev Action (σ : Type) := ReaderT Machine (EStateM Fault (World σ))

namespace Action

variable {σ β : Type}

/-- Runs an action on a machine, from a world. -/
def perform (a : Action σ β) (machine : Machine) (world : World σ) : Except Fault β × World σ :=
  match a machine world with
  | .ok value after => (.ok value, after)
  | .error fault after => (.error fault, after)

/-- An answer that needs no world. -/
def ofExcept (answer : Except Fault β) : Action σ β :=
  match answer with
  | .ok value => pure value
  | .error fault => throw fault

/-- Turns a fault into a value; the world is as the fault left it. -/
def attempt (a : Action σ β) : Action σ (Except Fault β) := fun machine world =>
  match a machine world with
  | .ok value after => .ok (.ok value) after
  | .error fault after => .ok (.error fault) after

/-- Runs an action on a copy of the bindings: the copy is dropped afterwards. -/
def isolated (a : Action σ β) : Action σ β := fun machine world =>
  match a machine world with
  | .ok value after => .ok value { after with bindings := world.bindings }
  | .error fault after => .error fault { after with bindings := world.bindings }

/-- An action on the first part of a larger state. -/
def beside {ρ : Type} (a : Action σ β) : Action (σ × ρ) β := fun machine world =>
  match a machine { world with shared := world.shared.1 } with
  | .ok value after => .ok value { after with shared := (after.shared, world.shared.2) }
  | .error fault after => .error fault { after with shared := (after.shared, world.shared.2) }

/-- Logs a message. -/
def log (level : Level) (text : String) : Action σ Unit :=
  modify fun world => { world with journal := world.journal ++ [⟨level, text⟩] }

/-- Logs a warning. -/
def warn (text : String) : Action σ Unit := log .warning text

/-- Changes the callers' state, and answers with a part of it. -/
def modifyShared (f : σ → β × σ) : Action σ β :=
  modifyGet fun world =>
    let (value, shared) := f world.shared
    (value, { world with shared })

/-- The value a variable is bound to. -/
def binding (name : String) : Action σ Setting := do
  return ((← get).bindings.lookup name).getD .absent

/-- Binds a variable. -/
def setBinding (name : String) (value : Setting) : Action σ Unit :=
  modify fun world => { world with bindings := (name, value) :: world.bindings }

/-! ### What an action does -/

section Perform

variable {γ : Type} (machine : Machine) (world : World σ)

@[simp] theorem perform_pure (x : β) :
    (pure x : Action σ β).perform machine world = (.ok x, world) := rfl

@[simp] theorem perform_throw (fault : Fault) :
    (throw fault : Action σ β).perform machine world = (.error fault, world) := rfl

/-- A sequence stops at the first fault; otherwise the second action finds the world that the first
one left. -/
theorem perform_bind (a : Action σ β) (f : β → Action σ γ) :
    (a >>= f).perform machine world =
      match a.perform machine world with
      | (.ok x, after) => (f x).perform machine after
      | (.error fault, after) => (.error fault, after) := by
  show (match EStateM.bind (a machine) (fun x => f x machine) world with
    | .ok value after => (Except.ok value, after)
    | .error fault after => (Except.error fault, after)) = _
  simp only [perform, EStateM.bind]
  cases a machine world <;> rfl

@[simp] theorem perform_ofExcept (answer : Except Fault β) :
    (ofExcept answer : Action σ β).perform machine world = (answer, world) := by
  cases answer <;> rfl

/-- An attempt has no fault, and leaves the world as the action leaves it. -/
@[simp] theorem perform_attempt (a : Action σ β) :
    a.attempt.perform machine world =
      (.ok (a.perform machine world).1, (a.perform machine world).2) := by
  simp only [perform, attempt]
  cases a machine world <;> rfl

/-- Isolation protects the bindings and nothing else. -/
@[simp] theorem perform_isolated (a : Action σ β) :
    a.isolated.perform machine world = ((a.perform machine world).1,
      { (a.perform machine world).2 with bindings := world.bindings }) := by
  simp only [perform, isolated]
  cases a machine world <;> rfl

/-- The second part of a larger state stays as it is. -/
@[simp] theorem perform_beside {ρ : Type} (a : Action σ β) (world : World (σ × ρ)) :
    a.beside.perform machine world =
      let (answer, after) := a.perform machine { world with shared := world.shared.1 }
      (answer, { after with shared := (after.shared, world.shared.2) }) := by
  simp only [perform, beside]
  cases a machine { world with shared := world.shared.1 } <;> rfl

@[simp] theorem perform_log (level : Level) (text : String) :
    (log level text : Action σ Unit).perform machine world =
      (.ok (), { world with journal := world.journal ++ [⟨level, text⟩] }) := rfl

@[simp] theorem perform_modifyShared (f : σ → β × σ) :
    (modifyShared f).perform machine world =
      (.ok (f world.shared).1, { world with shared := (f world.shared).2 }) := rfl

end Perform

end Action

end JacobianAudit
