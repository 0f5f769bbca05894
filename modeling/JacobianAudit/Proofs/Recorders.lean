/-
**What a recorder has heard.**

A driver may watch any number of evaluators with monitors that report to one recorder, and call
them in any order. This module shows that the recorder never loses, repeats or reorders a report:
what it holds after a series of calls is a function of the calls that had something to report, and
those are exactly the calls for Jacobians that were answered although their check had failed.

A monitor is an evaluator and may itself be monitored. While it is probed it is asked for all
Jacobians once, and reports what it finds then; all other points are looked at without Jacobians,
and there is nothing to report about those.

Main definitions:

* `JacobianAudit.Monitor.message?` — what a call of a monitor has to report, if anything;
* `JacobianAudit.Monitor.Reports` — what the messages of a monitor are made of;
* `JacobianAudit.Nest` — monitors around an evaluator that leaves the recorder alone;
* `JacobianAudit.Nest.messages` — what a call of the outermost monitor has to report;
* `JacobianAudit.Turn`, `JacobianAudit.Turn.messages` — what a driver does, one thing after the
  other, and what there is to report;
* `JacobianAudit.Recorder.Holds` — a recorder has heard these messages and no others.

Main results:

* `JacobianAudit.Monitor.log_ne_empty_of_probe` — there is something behind the first line;
* `JacobianAudit.Nest.recorder_evaluate` — what a call does to the recorder;
* `JacobianAudit.Turn.recorder_faithful` — **a recorder holds what there was to report**.
-/

import JacobianAudit.Proofs.Surveys
import JacobianAudit.Proofs.Transparency

set_option autoImplicit false

namespace JacobianAudit

variable {τ σ α : Type}

/-! ### Leaving the recorder alone -/

namespace Recorder

/-- The recorder is as it was, whatever has become of the state beside it. -/
def Untouched (s s' : τ × Recorder) : Prop := s'.2 = s.2

theorem inherited_untouched :
    Action.Inherited fun _ (a : Action (τ × Recorder) _) => a.Moves Untouched :=
  Action.inherited_moves (fun _ => rfl) fun _ _ _ h h' => h'.trans h

/-! ### Hearing messages -/

/-- Receives reports one after the other. -/
def hear (r : Recorder) (messages : List String) : Recorder := messages.foldl report r

theorem hear_append (r : Recorder) (messages more : List String) :
    r.hear (messages ++ more) = (r.hear messages).hear more := List.foldl_append

theorem log_hear (r : Recorder) (messages : List String) :
    (r.hear messages).log = r.log ++ String.join messages := by
  induction messages generalizing r with
  | nil => exact String.append_empty.symm
  | cons message rest ih =>
      rw [String.join_cons, ← String.append_assoc]
      exact ih (r.report message)

theorem detected_hear_iff (r : Recorder) (messages : List String) :
    (r.hear messages).detected = true ↔ r.detected = true ∨ messages ≠ [] := by
  induction messages generalizing r with
  | nil => simp [hear]
  | cons message rest ih =>
      refine (ih (r.report message)).trans ?_
      simp [report]

/-- A recorder that has heard these messages, in this order, and no others. -/
structure Holds (r : Recorder) (messages : List String) : Prop where
  log_eq : r.log = String.join messages
  detected_iff : r.detected = true ↔ messages ≠ []
  log_ne_empty_iff : r.log ≠ "" ↔ messages ≠ []

/-- A fresh recorder holds what it hears, if there is something in every message. -/
theorem holds_hear {messages : List String} (h : ∀ message ∈ messages, message ≠ "") :
    (({} : Recorder).hear messages).Holds messages where
  log_eq := (log_hear _ _).trans String.empty_append
  detected_iff := by simp [detected_hear_iff]
  log_ne_empty_iff := by
    rw [log_hear]
    cases messages with
    | nil => simp
    | cons message rest =>
        have hne := h message List.mem_cons_self
        simp [String.join_cons, String.append_eq_empty_iff, hne]

/-- The driver asks the recorder that stands beside its own state. -/
def ask : Action (τ × Recorder) Unit := do
  let recorder ← Action.modifyShared fun s => (s.2, s)
  Action.ofExcept recorder.check

theorem perform_ask (machine : Machine) (w : World (τ × Recorder)) :
    ask.perform machine w = (w.shared.2.check, w) := by
  unfold ask
  rw [Action.perform_bind, Action.perform_modifyShared]
  exact Action.perform_ofExcept machine w _

theorem Holds.check_eq {r : Recorder} {messages : List String} (h : r.Holds messages) :
    r.check = if messages = [] then .ok () else .error (.checksFailed r.log) := by
  unfold check
  by_cases hm : messages = []
  · rw [if_neg fun hd => h.detected_iff.1 hd hm, if_pos hm]
  · rw [if_pos (h.detected_iff.2 hm), if_neg hm]

end Recorder

variable [Scalar α]

/-! ### After the point has been read -/

/-- An evaluator that has been asked for Jacobians and repeats what it answered. -/
def Evaluator.repeating (e : Evaluator σ α) (answer : Except Fault (Option (Answer α))) :
    Evaluator σ α :=
  { e with evaluate := fun parameters request =>
      match request with
      | none => e.evaluate parameters none
      | some _ => Action.ofExcept answer }

namespace Checker

variable {c : Checker σ α} {machine : Machine} {w w' : World σ} {blocks : List (List α)}
  {tolerance : α} {recording : Bool} {answer : Except Fault (Option (Answer α))}

/-- A checker of an evaluator that repeats its answer. -/
def repeating (c : Checker σ α) (answer : Except Fault (Option (Answer α))) : Checker σ α :=
  { c with evaluator := c.evaluator.repeating answer }

theorem numeric_repeating (residuals : List α) (k : ℕ) (space : BlockSpace σ α) :
    (c.repeating answer).numeric blocks residuals recording k space =
      c.numeric blocks residuals recording k space := rfl

theorem differentiate_repeating (reading : Reading α)
    (todo : List (ℕ × BlockSpace σ α × List α × Tensor α)) (progress : Progress α) :
    (c.repeating answer).differentiate blocks reading recording todo progress =
      c.differentiate blocks reading recording todo progress := by
  induction todo generalizing progress with
  | nil => rfl
  | cons task rest ih => simp only [differentiate, numeric_repeating, ih]

/-- **A probe asks for Jacobians once.** After that it goes on as if the answer were repeated. -/
theorem perform_runAt_repeating
    (h : (c.evaluator.evaluate (blocks.map .vector) (some (blocks.map fun _ => true))).perform
      machine w = (answer, w')) :
    (c.runAt blocks tolerance recording).perform machine w =
      ((c.repeating answer).runAt blocks tolerance recording).perform machine w' := by
  have hagain : ((c.repeating answer).evaluator.evaluate (blocks.map .vector)
      (some (blocks.map fun _ => true))).perform machine w' = (answer, w') :=
    Action.perform_ofExcept machine w' answer
  have hread : (c.read blocks).perform machine w =
      ((c.repeating answer).read blocks).perform machine w' := by
    unfold read
    rw [Action.perform_bind, Action.perform_bind, h, hagain]
    rfl
  unfold runAt
  rw [Action.perform_attempt_bind, Action.perform_attempt_bind, hread]
  simp only [differentiate_repeating]
  rfl

/-- A record is no matter of the world. -/
theorem snd_perform_probeInto (parameters : List (Supplied α)) (before : Record α) :
    ((c.probeInto parameters tolerance before).perform machine w).2 =
      ((c.run parameters tolerance true).perform machine w).2 := by
  unfold probeInto
  rw [Action.perform_bind]
  rcases (c.run parameters tolerance true).perform machine w with ⟨fault | ending, w₁⟩ <;> rfl

/-- What a probe does to the recorder it does where it asks for Jacobians, if there is nothing to
hear of residuals alone and of the manifolds. -/
theorem recorder_runAt {c : Checker (τ × Recorder) α} {w : World (τ × Recorder)}
    (he : ∀ parameters, (c.evaluator.evaluate parameters none).Moves Recorder.Untouched)
    (hm : ∀ space ∈ c.spaces, ∀ m ∈ space.manifold,
      m.Has fun _ a => a.Moves Recorder.Untouched) :
    ((c.runAt blocks tolerance recording).perform machine w).2.shared.2 =
      ((c.evaluator.evaluate (blocks.map .vector) (some (blocks.map fun _ => true))).perform
        machine w).2.shared.2 := by
  rcases h : (c.evaluator.evaluate (blocks.map .vector) (some (blocks.map fun _ => true))).perform
    machine w with ⟨answer, w'⟩
  rw [perform_runAt_repeating h]
  have hrepeating : (c.repeating answer).Has fun _ a => a.Moves Recorder.Untouched := by
    refine ⟨fun parameters request => ?_, hm⟩
    cases request with
    | none => exact he parameters
    | some mask => exact Recorder.inherited_untouched.ofExcept answer
  exact runAt_inherits Recorder.inherited_untouched hrepeating blocks tolerance recording machine w'

end Checker

/-! ### What a call has to report -/

/-- Jacobians are requested. -/
def requestsJacobians (request : Option (List Bool)) : Bool := request.any fun mask => mask.any id

namespace Monitor

variable {machine : Machine}

/-- The message of a call: there is one if Jacobians are requested, the call is answered with a
value, and the verdict of the probe is no. It is a line with the monitor's label, or with a word in
its place if that is empty, and behind it the log of this probe. -/
def message? (m : Monitor σ α) (machine : Machine) (w : World σ) (parameters : List (Supplied α))
    (request : Option (List Bool)) : Option String :=
  match ((m.evaluate parameters request).perform machine w).1,
    ((m.checker.probeInto parameters m.tolerance Record.blank).perform machine w).1 with
  | .ok (some _), .ok (.ok false, record) =>
    if requestsJacobians request then
      some ("Gradient check failed for " ++ (if m.label = "" then "evaluator" else m.label) ++
        ".\n" ++ record.log)
    else none
  | _, _ => none

theorem reportText_eq (m : Monitor σ α) (log : String) :
    m.reportText log = "Gradient check failed for " ++
      (if m.label = "" then "evaluator" else m.label) ++ ".\n" ++ log := by
  unfold reportText
  simp only [String.isEmpty_iff]

/-- A monitor does to its recorder what its probe does, and then reports its message. -/
theorem recorder_of_probe {m : Monitor (τ × Recorder) α} {w : World (τ × Recorder)}
    (hcallback : m.callback = Recorder.callback) {parameters : List (Supplied α)}
    {mask : List Bool} (hmask : mask.any id = true) :
    ((m.evaluate parameters (some mask)).perform machine w).2.shared.2 =
      (((m.checker.probeInto parameters m.tolerance Record.blank).perform
        machine w).2.shared.2).hear (m.message? machine w parameters (some mask)).toList := by
  unfold message?
  rcases hp : (m.checker.probeInto parameters m.tolerance Record.blank).perform machine w with
    ⟨answer, w₁⟩
  by_cases hv : ∃ passed record, answer = .ok (.ok passed, record)
  · obtain ⟨passed, record, rfl⟩ := hv
    rw [perform_evaluate_of_verdict hp hmask, hcallback, reportText_eq]
    cases record.success with
    | false => rfl
    | true =>
        cases passed with
        | true => rfl
        | false =>
            simp only [requestsJacobians, Option.any, hmask, if_true]
            rfl
  · have hno : ∀ passed record, answer ≠ .ok (.ok passed, record) := fun passed record h =>
      hv ⟨passed, record, h⟩
    obtain ⟨fault, hdone⟩ := perform_evaluate_of_no_verdict hp hno hmask
    rw [hdone]
    rfl

theorem message?_eq_some_iff {m : Monitor σ α} {w : World σ} {parameters : List (Supplied α)}
    {request : Option (List Bool)} {message : String} :
    m.message? machine w parameters request = some message ↔
      requestsJacobians request = true ∧
        (∃ answer, ((m.evaluate parameters request).perform machine w).1 = .ok (some answer)) ∧
        ∃ record, ((m.checker.probeInto parameters m.tolerance Record.blank).perform machine w).1 =
            .ok (.ok false, record) ∧
          message = "Gradient check failed for " ++
            (if m.label = "" then "evaluator" else m.label) ++ ".\n" ++ record.log := by
  unfold message?
  constructor
  · intro h
    split at h
    · rename_i answer record hanswer hprobe
      split at h
      · rename_i hrequest
        exact ⟨hrequest, ⟨answer, hanswer⟩, record, hprobe, (Option.some.inj h).symm⟩
      · cases h
    · cases h
  · rintro ⟨hrequest, ⟨answer, hanswer⟩, record, hprobe, rfl⟩
    simp only [hanswer, hprobe, if_pos hrequest]

/-- There is something behind the first line of a message: a probe that says no says why. -/
theorem log_ne_empty_of_probe [OrderedScalar α] {c : Checker σ α} {w : World σ}
    {parameters : List (Supplied α)} {tolerance : α} {before record : Record α}
    (h : ((c.probeInto parameters tolerance before).perform machine w).1 =
      .ok (.ok false, record)) : record.log ≠ "" := by
  obtain ⟨ending, hrun, hv, rfl⟩ := Checker.perform_probeInto_iff.1 (eq_mk_of_fst h)
  intro hempty
  cases (Checker.log_eq_empty_iff hrun hv).1 hempty

/-- A message of this monitor: a line with its label, and behind it what one of its probes that said
no has logged. There is something in the log. -/
def Reports (m : Monitor σ α) (message : String) : Prop :=
  ∃ machine w parameters record,
    ((m.checker.probeInto parameters m.tolerance Record.blank).perform machine w).1 =
      .ok (.ok false, record) ∧ record.log ≠ "" ∧
    message = "Gradient check failed for " ++ (if m.label = "" then "evaluator" else m.label) ++
      ".\n" ++ record.log

theorem Reports.ne_empty {m : Monitor σ α} {message : String} (h : m.Reports message) :
    message ≠ "" := by
  obtain ⟨machine, w, parameters, record, -, hlog, rfl⟩ := h
  exact fun hempty => hlog (String.append_eq_empty_iff.1 hempty).2

theorem reports_of_message? [OrderedScalar α] {m : Monitor σ α} {w : World σ}
    {parameters : List (Supplied α)} {request : Option (List Bool)} {message : String}
    (h : m.message? machine w parameters request = some message) : m.Reports message := by
  obtain ⟨-, -, record, hprobe, hmessage⟩ := message?_eq_some_iff.1 h
  exact ⟨machine, w, parameters, record, hprobe, log_ne_empty_of_probe hprobe, hmessage⟩

end Monitor

/-! ### Monitors around monitors -/

/-- Monitors around an evaluator, all of them reporting to one recorder, which neither the evaluator
itself nor any of the manifolds touches. -/
inductive Nest {τ α : Type} [Scalar α] : Evaluator (τ × Recorder) α → Type
  /-- An evaluator that is not monitored. -/
  | bare {e : Evaluator (τ × Recorder) α}
      (untouched : e.Has fun _ a => a.Moves Recorder.Untouched) : Nest e
  /-- A monitor around what there is. -/
  | monitored {e : Evaluator (τ × Recorder) α} (inner : Nest e)
      {manifolds : Option (List (Option (Manifold (τ × Recorder) α)))} {tolerance : α}
      {label : String} {options : DiffOptions α} {cap : Setting}
      (untouched : ∀ given, manifolds = some given → ∀ m, some m ∈ given →
        m.Has fun _ a => a.Moves Recorder.Untouched)
      (m : Monitor (τ × Recorder) α)
      (made : Monitor.make e manifolds tolerance Recorder.callback label options cap = .ok m) :
      Nest m.toEvaluator

namespace Nest

variable {e : Evaluator (τ × Recorder) α}

/-- The monitors, the innermost one first. -/
def monitors {e : Evaluator (τ × Recorder) α} : Nest e → List (Monitor (τ × Recorder) α)
  | bare _ => []
  | monitored inner _ m _ => inner.monitors ++ [m]

/-- What a call of the outermost monitor has to report: what the inner ones have to report when the
probe asks for all Jacobians, and then its own message. -/
def messages {e : Evaluator (τ × Recorder) α} (nest : Nest e) (machine : Machine)
    (w : World (τ × Recorder)) (parameters : List (Supplied α)) (request : Option (List Bool)) :
    List String :=
  match nest with
  | bare _ => []
  | monitored inner _ m _ =>
    if requestsJacobians request then
      (match m.checker.accept parameters true with
        | .error _ => []
        | .ok blocks =>
          inner.messages machine w (blocks.map .vector) (some (blocks.map fun _ => true))) ++
        (m.message? machine w parameters request).toList
    else []

/-- There is nothing to report about residuals alone. -/
theorem messages_of_no_request (nest : Nest e) (machine : Machine) (w : World (τ × Recorder))
    (parameters : List (Supplied α)) {request : Option (List Bool)}
    (h : requestsJacobians request = false) : nest.messages machine w parameters request = [] := by
  cases nest with
  | bare => rfl
  | monitored inner untouched m made => simp [messages, h]

/-- A single monitor has its own message to report, if there is one. -/
theorem messages_of_bare (untouched : e.Has fun _ a => a.Moves Recorder.Untouched)
    {manifolds : Option (List (Option (Manifold (τ × Recorder) α)))} {tolerance : α}
    {label : String} {options : DiffOptions α} {cap : Setting}
    (hmanifolds : ∀ given, manifolds = some given → ∀ m, some m ∈ given →
      m.Has fun _ a => a.Moves Recorder.Untouched)
    (m : Monitor (τ × Recorder) α)
    (made : Monitor.make e manifolds tolerance Recorder.callback label options cap = .ok m)
    {machine : Machine} {w : World (τ × Recorder)} {parameters : List (Supplied α)}
    {request : Option (List Bool)} :
    (monitored (bare untouched) hmanifolds m made).messages machine w parameters request =
      (m.message? machine w parameters request).toList := by
  rw [messages]
  cases hrequest : requestsJacobians request with
  | true => cases m.checker.accept parameters true <;> rfl
  | false =>
      cases hmessage : m.message? machine w parameters request with
      | none => rfl
      | some message =>
          rw [(Monitor.message?_eq_some_iff.1 hmessage).1] at hrequest
          cases hrequest

/-- **What a call does to the recorder**: it reports what there is to report. -/
theorem recorder_evaluate (nest : Nest e) (machine : Machine) (w : World (τ × Recorder))
    (parameters : List (Supplied α)) (request : Option (List Bool)) :
    ((e.evaluate parameters request).perform machine w).2.shared.2 =
      w.shared.2.hear (nest.messages machine w parameters request) := by
  induction nest generalizing machine w parameters request with
  | bare untouched => exact untouched parameters request machine w
  | @monitored e inner manifolds tolerance label options cap untouched m made ih =>
      obtain ⟨hmake, rfl, ht, hcallback, -⟩ := Monitor.of_make made
      obtain ⟨rfl, -, -, hmanifolds⟩ := Checker.of_make hmake
      show ((m.evaluate parameters request).perform machine w).2.shared.2 = _
      cases hrequest : requestsJacobians request with
      | false =>
          -- the call is passed on
          have hnone : ∀ mask, request = some mask → mask.any id = false := by
            rintro mask rfl
            exact hrequest
          rw [Monitor.evaluate_of_no_request hnone, ih,
            messages_of_no_request inner machine w parameters hrequest,
            messages_of_no_request (.monitored inner untouched m made) machine w parameters
              hrequest]
      | true =>
          obtain ⟨mask, rfl, hmask⟩ : ∃ mask, request = some mask ∧ mask.any id = true := by
            cases request with
            | none => cases hrequest
            | some mask => exact ⟨mask, rfl, hrequest⟩
          have hresiduals : ∀ parameters,
              (m.checker.evaluator.evaluate parameters none).Moves Recorder.Untouched := by
            intro parameters machine w
            rw [Recorder.Untouched, ih, messages_of_no_request inner machine w parameters rfl]
            rfl
          rw [Monitor.recorder_of_probe hcallback hmask, Checker.snd_perform_probeInto,
            m.checker.run_eq_accept parameters true ht, messages, if_pos hrequest,
            Recorder.hear_append]
          congr 1
          cases m.checker.accept parameters true with
          | error ending => rfl
          | ok blocks =>
              refine (Checker.recorder_runAt hresiduals fun space hspace manifold hm => ?_).trans
                (ih machine w _ _)
              obtain ⟨given, hgiven, hmem⟩ := hmanifolds space hspace manifold hm
              exact untouched given hgiven manifold hmem

/-- Every message is one of these monitors'. -/
theorem reports_of_mem_messages [OrderedScalar α] (nest : Nest e) {machine : Machine}
    {w : World (τ × Recorder)} {parameters : List (Supplied α)} {request : Option (List Bool)}
    {message : String} (h : message ∈ nest.messages machine w parameters request) :
    ∃ m ∈ nest.monitors, m.Reports message := by
  induction nest generalizing machine w parameters request with
  | bare => cases h
  | monitored inner untouched m made ih =>
      rw [messages] at h
      split at h
      · rcases List.mem_append.1 h with h | h
        · split at h
          · cases h
          · obtain ⟨watch, hwatch, hreports⟩ := ih h
            exact ⟨watch, List.mem_append_left _ hwatch, hreports⟩
        · exact ⟨m, List.mem_append_right _ (List.mem_singleton_self m),
            Monitor.reports_of_message? (Option.mem_toList.1 h)⟩
      · cases h

end Nest

/-! ### A driver's turns -/

/-- What a driver does: it calls a monitor, or it asks the recorder. Both may end in a fault. -/
inductive Turn (τ α : Type) [Scalar α] : Type
  | call (machine : Machine) (e : Evaluator (τ × Recorder) α) (nest : Nest e)
      (parameters : List (Supplied α)) (request : Option (List Bool))
  | ask (machine : Machine)

namespace Turn

/-- The world after a turn. -/
def next : Turn τ α → World (τ × Recorder) → World (τ × Recorder)
  | call machine e _ parameters request, w => ((e.evaluate parameters request).perform machine w).2
  | ask machine, w => (Recorder.ask.perform machine w).2

/-- What there is to report in a turn. -/
def report : Turn τ α → World (τ × Recorder) → List String
  | call machine _ nest parameters request, w => nest.messages machine w parameters request
  | ask _, _ => []

/-- The monitors that are called in a turn. -/
def monitors : Turn τ α → List (Monitor (τ × Recorder) α)
  | call _ _ nest _ _ => nest.monitors
  | ask _ => []

/-- The world after turns one after the other. A fault reaches the driver, who goes on. -/
def after : List (Turn τ α) → World (τ × Recorder) → World (τ × Recorder)
  | [], w => w
  | turn :: rest, w => after rest (turn.next w)

/-- What there is to report in the turns, in their order. -/
def messages : List (Turn τ α) → World (τ × Recorder) → List String
  | [], _ => []
  | turn :: rest, w => turn.report w ++ messages rest (turn.next w)

theorem after_append (history more : List (Turn τ α)) (w : World (τ × Recorder)) :
    after (history ++ more) w = after more (after history w) := by
  induction history generalizing w with
  | nil => rfl
  | cons turn rest ih => exact ih (turn.next w)

theorem messages_append (history more : List (Turn τ α)) (w : World (τ × Recorder)) :
    messages (history ++ more) w = messages history w ++ messages more (after history w) := by
  induction history generalizing w with
  | nil => rfl
  | cons turn rest ih =>
      show turn.report w ++ messages (rest ++ more) (turn.next w) = _
      rw [ih (turn.next w), ← List.append_assoc]
      rfl

/-- What a turn does to the recorder. -/
theorem recorder_next (turn : Turn τ α) (w : World (τ × Recorder)) :
    (turn.next w).shared.2 = w.shared.2.hear (turn.report w) := by
  cases turn with
  | call machine e nest parameters request =>
      exact nest.recorder_evaluate machine w parameters request
  | ask machine =>
      rw [next, Recorder.perform_ask]
      rfl

/-- What a series of turns does to the recorder. -/
theorem recorder_after (history : List (Turn τ α)) (w : World (τ × Recorder)) :
    (after history w).shared.2 = w.shared.2.hear (messages history w) := by
  induction history generalizing w with
  | nil => rfl
  | cons turn rest ih =>
      rw [messages, Recorder.hear_append, ← recorder_next]
      exact ih (turn.next w)

theorem reports_of_mem_messages [OrderedScalar α] {history : List (Turn τ α)}
    {w : World (τ × Recorder)} {message : String} (h : message ∈ messages history w) :
    ∃ turn ∈ history, ∃ m ∈ turn.monitors, m.Reports message := by
  induction history generalizing w with
  | nil => cases h
  | cons turn rest ih =>
      rcases List.mem_append.1 h with h | h
      · cases turn with
        | call machine e nest parameters request =>
            exact ⟨_, List.mem_cons_self, nest.reports_of_mem_messages h⟩
        | ask machine => cases h
      · obtain ⟨called, hcalled, hreports⟩ := ih h
        exact ⟨called, List.mem_cons_of_mem _ hcalled, hreports⟩

/-- **A recorder holds what there was to report**, no more and no less and in this order, after any
series of calls of any monitors. Every message names one of the monitors and carries the log of a
probe of its checker that failed. Once a check has failed that is not forgotten. Asking changes
nothing, and comes to a fault that carries the log exactly if there was something to report. -/
theorem recorder_faithful [OrderedScalar α] (history : List (Turn τ α)) (own : τ)
    (bindings : List (String × Setting)) (journal : List Entry) :
    let start : World (τ × Recorder) := ⟨(own, {}), bindings, journal⟩
    let w := after history start
    w.shared.2.Holds (messages history start) ∧
    (∀ message ∈ messages history start, ∃ turn ∈ history, ∃ m ∈ turn.monitors,
      m.Reports message) ∧
    (∀ more, messages (history ++ more) start = messages history start ++ messages more w ∧
      (w.shared.2.detected = true → (after (history ++ more) start).shared.2.detected = true)) ∧
    ∀ machine, Recorder.ask.perform machine w =
      (if messages history start = [] then .ok ()
        else .error (.checksFailed w.shared.2.log), w) := by
  intro start w
  have hreports : ∀ message ∈ messages history start, ∃ turn ∈ history, ∃ m ∈ turn.monitors,
      m.Reports message := fun message h => reports_of_mem_messages h
  have hheard : w.shared.2 = ({} : Recorder).hear (messages history start) :=
    recorder_after history start
  have hholds : w.shared.2.Holds (messages history start) := by
    rw [hheard]
    refine Recorder.holds_hear fun message h => ?_
    obtain ⟨-, -, m, -, hmessage⟩ := hreports message h
    exact hmessage.ne_empty
  refine ⟨hholds, hreports, fun more => ⟨messages_append history more start, fun hd => ?_⟩,
    fun machine => ?_⟩
  · rw [after_append, recorder_after, Recorder.detected_hear_iff]
    exact .inl hd
  · rw [Recorder.perform_ask, hholds.check_eq]

end Turn

/-! ### A monitor that has something to report -/

omit [Scalar α] in
/-- An evaluator of the driver's own state leaves the recorder beside it alone. -/
theorem Evaluator.beside_untouched (e : Evaluator τ α) :
    (e.beside (ρ := Recorder)).Has fun _ a => a.Moves Recorder.Untouched := by
  intro parameters request machine w
  show ((e.evaluate parameters request).beside.perform machine w).2.shared.2 = _
  rw [Action.perform_beside]

/-- A monitor of the functions whose Jacobian is wrong along `x₁`, which nothing holds here. -/
def slantedWatch : Monitor (Unit × Recorder) Float where
  checker := ⟨slanted.toEvaluator.beside, [.plain (.count 2), .plain (.count 1)],
    DiffOptions.standard, 3⟩
  tolerance := 1e-9
  callback := Recorder.callback
  label := "slanted"

theorem make_slantedWatch : Monitor.make (slanted.toEvaluator.beside (ρ := Recorder)) none 1e-9
    Recorder.callback "slanted" DiffOptions.standard (.whole 3) = .ok slantedWatch := by
  have ht : Scalar.le Scalar.zero (1e-9 : Float) = true := by decide +kernel
  unfold Monitor.make
  rw [ht]
  rfl

/-- The first line of what this monitor reports. -/
theorem line_slantedWatch : "Gradient check failed for " ++
    (if slantedWatch.label = "" then "evaluator" else slantedWatch.label) ++ ".\n" =
      "Gradient check failed for slanted.\n" := by
  decide +kernel

/-- The monitor around the functions, which know of no recorder. -/
def slantedNest : Nest slantedWatch.toEvaluator :=
  .monitored (.bare slanted.toEvaluator.beside_untouched) (by simp) slantedWatch make_slantedWatch

/-- The driver asks for a Jacobian, then for residuals, and then whether a check has failed. -/
def slantedTurns : List (Turn Unit Float) :=
  [.call plainMachine _ slantedNest slantedPoint (some [true, false]),
    .call plainMachine _ slantedNest slantedPoint none, .ask plainMachine]

theorem recorder_faithful_slanted :
    ∃ record, ((slantedWatch.checker.probeInto slantedPoint 1e-9 Record.blank).perform plainMachine
        ⟨((), {}), [], []⟩).1 = .ok (.ok false, record) ∧
      record.log = String.join
        ["Detected 1 bad Jacobian component(s) in 1 parameter block(s). ",
          "Worst relative error was 1.\n",
          "Parameter block 0: worst relative error 1 exceeds tolerance 1e-09.\n",
          "   row  col          analytic           numeric        rel. error\n",
          "     0    1                 7                 0                 1\n"] ∧
      (Turn.after slantedTurns ⟨((), {}), [], []⟩).shared.2.detected = true ∧
      (Turn.after slantedTurns ⟨((), {}), [], []⟩).shared.2.log =
        "Gradient check failed for slanted.\n" ++ record.log := by
  have hprobe : ((slantedWatch.checker.probeInto slantedPoint 1e-9 Record.blank).perform
      plainMachine ⟨((), {}), [], []⟩).1.map (fun p => (p.1, p.2.log)) =
        .ok (.ok false, String.join
          ["Detected 1 bad Jacobian component(s) in 1 parameter block(s). ",
            "Worst relative error was 1.\n",
            "Parameter block 0: worst relative error 1 exceeds tolerance 1e-09.\n",
            "   row  col          analytic           numeric        rel. error\n",
            "     0    1                 7                 0                 1\n"]) := by
    decide +kernel
  have hvalue : ((slantedWatch.evaluate slantedPoint (some [true, false])).perform plainMachine
      ⟨((), {}), [], []⟩).1.map Option.isSome = .ok true := by decide +kernel
  obtain ⟨⟨_, record⟩, hrecord, hparts⟩ := Except.map_eq_ok_iff.1 hprobe
  obtain ⟨rfl, hlog⟩ := Prod.mk.inj hparts
  obtain ⟨_ | answer, hanswer, hsome⟩ := Except.map_eq_ok_iff.1 hvalue
  · cases hsome
  have hmessage : slantedWatch.message? plainMachine ⟨((), {}), [], []⟩ slantedPoint
      (some [true, false]) = some ("Gradient check failed for slanted.\n" ++ record.log) :=
    Monitor.message?_eq_some_iff.2
      ⟨rfl, ⟨answer, hanswer⟩, record, hrecord, by rw [line_slantedWatch]⟩
  have hmessages : Turn.messages slantedTurns ⟨((), {}), [], []⟩ =
      ["Gradient check failed for slanted.\n" ++ record.log] := by
    have hfirst : slantedNest.messages plainMachine ⟨((), {}), [], []⟩ slantedPoint
        (some [true, false]) = ["Gradient check failed for slanted.\n" ++ record.log] :=
      (Nest.messages_of_bare _ _ slantedWatch make_slantedWatch).trans (by rw [hmessage]; rfl)
    rw [slantedTurns, Turn.messages, Turn.report, hfirst, Turn.messages, Turn.report,
      slantedNest.messages_of_no_request _ _ _ rfl]
    rfl
  obtain ⟨hholds, -⟩ := Turn.recorder_faithful slantedTurns () [] []
  rw [hmessages] at hholds
  refine ⟨record, hrecord, hlog, hholds.detected_iff.2 (List.cons_ne_nil _ _),
    hholds.log_eq.trans ?_⟩
  rw [String.join_cons]
  exact String.append_empty

end JacobianAudit
