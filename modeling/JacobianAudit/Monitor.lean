/-
**Checking while a driver runs.**

A monitor stands between a driver and an evaluator. Requests for residuals alone pass through.
Whenever Jacobians are requested the evaluator is probed at the same point; the driver gets the
evaluator's own answer in either case, and a failed check is reported to a callback. Several
monitors may report to one recorder, which the driver asks at a safe point.

Main definitions:

* `JacobianAudit.Recorder` — the reports received so far;
* `JacobianAudit.Recorder.callback` — reporting to a recorder that is part of the state;
* `JacobianAudit.Monitor` — the monitor;
* `JacobianAudit.Monitor.toEvaluator` — the monitor in the evaluator's place.
-/

import JacobianAudit.Probe.Checker

set_option autoImplicit false

namespace JacobianAudit

/-! ### Recorders -/

/-- The reports of failed checks. -/
structure Recorder where
  /-- A check has failed. -/
  detected : Bool := false
  /-- The reports, one behind the other. -/
  log : String := ""

namespace Recorder

/-- Receives a report. -/
def report (r : Recorder) (message : String) : Recorder := ⟨true, r.log ++ message⟩

/-- A fault if any check has failed. -/
def check (r : Recorder) : Except Fault Unit :=
  if r.detected then .error (.checksFailed r.log) else .ok ()

/-- Reports to the recorder that stands beside the callers' own state. -/
def callback {τ : Type} (message : String) : Action (τ × Recorder) Unit :=
  Action.modifyShared fun s => ((), (s.1, s.2.report message))

end Recorder

/-! ### Monitors -/

/-- An evaluator that is checked whenever Jacobians are requested. -/
structure Monitor (σ α : Type) [Scalar α] where
  checker : Checker σ α
  tolerance : α
  callback : String → Action σ Unit
  /-- What reports call the evaluator; if empty, just that. -/
  label : String

namespace Monitor

variable {σ α : Type} [Scalar α]

/-- A monitor for an evaluator, if its settings are in order. -/
def make (evaluator : Evaluator σ α) (manifolds : Option (List (Option (Manifold σ α))))
    (tolerance : α) (callback : String → Action σ Unit) (label : String)
    (options : DiffOptions α) (cap : Setting) : Except Fault (Monitor σ α) := do
  if !Scalar.le Scalar.zero tolerance then
    throw (.argument (.negativePrecision (Scalar.text tolerance)))
  return ⟨← Checker.make evaluator manifolds options cap, tolerance, callback, label⟩

/-- The report of a failed check. -/
def reportText (m : Monitor σ α) (log : String) : String :=
  "Gradient check failed for " ++ (if m.label.isEmpty then "evaluator" else m.label) ++ ".\n" ++ log

/-- The Jacobians of a record that were requested. -/
def requested (mask : List Bool) (jacobians : List (Tensor α)) : List (Supplied α) :=
  (jacobians.zip mask).map fun p => if p.2 then .array p.1 else .nothing

/-- Answers like the evaluator, and probes it if a Jacobian is requested. -/
def evaluate (m : Monitor σ α) (parameters : List (Supplied α)) (request : Option (List Bool)) :
    Action σ (Option (Answer α)) := do
  match request with
  | none => m.checker.evaluator.evaluate parameters none
  | some mask =>
    if mask.any id then
      let (verdict, record) ← m.checker.probeInto parameters m.tolerance Record.blank
      let passed ← Action.ofExcept verdict
      if !record.success then return none
      if !passed then
        let report := m.reportText record.log
        Action.warn report
        m.callback report
      return some ⟨.array record.residuals, some (requested mask record.ambient)⟩
    else m.checker.evaluator.evaluate parameters (some mask)

/-- The monitor as an evaluator of the same sizes. -/
def toEvaluator (m : Monitor σ α) : Evaluator σ α where
  blockSizes := m.checker.sizes
  numResiduals := m.checker.evaluator.numResiduals
  evaluate := m.evaluate

end Monitor

end JacobianAudit
