/-
**Monitors are transparent.**

A monitor does not pass a request for Jacobians on. It probes, which asks for all Jacobians and
reads them once more, and answers from the record of the probe. This module shows that a driver
cannot tell the difference: the answer is the one that the monitored evaluator would have given to
the driver's own request, and all that a failed check causes is one report.

What a monitor does besides answering is observed by a trace that stands beside the callers' own
state: each call of the evaluator and each report is an event of it.

Main definitions:

* `JacobianAudit.Event`, `JacobianAudit.tracing` — events, and an action that leaves one behind;
* `JacobianAudit.Functions.full` — residuals and all Jacobians, as the functions answer them;
* `JacobianAudit.Ending.reading?` — what a probe read at the point, if it got so far;
* `JacobianAudit.Monitor.Alarms` — a check fails that the driver has to hear of.

Main results:

* `JacobianAudit.Functions.evaluate_eq_full` — what is requested decides only what is chosen from
  the full answer;
* `JacobianAudit.Functions.select_of_read` — reading the full answer once more and choosing
  afterwards comes to the same;
* `JacobianAudit.Monitor.evaluate_transparent` — **a monitor answers like its evaluator and reports
  once for each alarm**.
-/

import JacobianAudit.Monitor
import JacobianAudit.Proofs.Frames
import JacobianAudit.Proofs.Verdict

set_option autoImplicit false

namespace JacobianAudit

variable {σ α β : Type}

/-! ### Observing a monitor -/

/-- What a monitor can be seen to do. -/
inductive Event (α : Type) where
  /-- It calls the evaluator. -/
  | called (parameters : List (Supplied α)) (request : Option (List Bool))
  /-- It reports a failed check. -/
  | reported (message : String)

namespace Event

/-- The message of a report. -/
def message? : Event α → Option String
  | called _ _ => none
  | reported message => some message

/-- The messages that were reported, oldest first. -/
def messages (trace : List (Event α)) : List String := trace.filterMap message?

/-- The trace goes on with calls only. -/
def OnlyCalls (s s' : σ × List (Event α)) : Prop :=
  ∃ calls : List (Event α), messages calls = [] ∧ s'.2 = s.2 ++ calls

theorem onlyCalls_refl (s : σ × List (Event α)) : OnlyCalls s s :=
  ⟨[], rfl, (List.append_nil s.2).symm⟩

theorem onlyCalls_trans (s t u : σ × List (Event α)) (h : OnlyCalls s t) (h' : OnlyCalls t u) :
    OnlyCalls s u := by
  obtain ⟨calls, hc, ht⟩ := h
  obtain ⟨more, hm, hu⟩ := h'
  refine ⟨calls ++ more, ?_, by rw [hu, ht, List.append_assoc]⟩
  rw [messages, List.filterMap_append]
  exact List.append_eq_nil_iff.2 ⟨hc, hm⟩

theorem messages_of_onlyCalls {s s' : σ × List (Event α)} (h : OnlyCalls s s') :
    messages s'.2 = messages s.2 := by
  obtain ⟨calls, hc, hs⟩ := h
  rw [hs, messages, List.filterMap_append, show calls.filterMap message? = [] from hc,
    List.append_nil, messages]

end Event

/-- An action on the first part of the state that leaves an event behind in the second. -/
def tracing (event : Event α) (a : Action σ β) : Action (σ × List (Event α)) β := do
  Action.modifyShared fun s => ((), s.1, s.2 ++ [event])
  a.beside

theorem perform_tracing (event : Event α) (a : Action σ β) (machine : Machine)
    (w : World (σ × List (Event α))) :
    (tracing event a).perform machine w =
      let done := a.perform machine { w with shared := w.shared.1 }
      (done.1, { done.2 with shared := (done.2.shared, w.shared.2 ++ [event]) }) := by
  unfold tracing
  rw [Action.perform_bind, Action.perform_modifyShared]
  exact Action.perform_beside machine a _

/-- An evaluator of which every call is observed. -/
def Evaluator.traced (e : Evaluator σ α) : Evaluator (σ × List (Event α)) α where
  blockSizes := e.blockSizes
  numResiduals := e.numResiduals
  evaluate parameters request :=
    tracing (.called parameters request) (e.evaluate parameters request)

/-- A call that is observed is the one event that it leaves behind. -/
theorem Evaluator.trace_evaluate (e : Evaluator σ α) (parameters : List (Supplied α))
    (request : Option (List Bool)) (machine : Machine) (w : World (σ × List (Event α))) :
    ((e.traced.evaluate parameters request).perform machine w).2.shared.2 =
      w.shared.2 ++ [.called parameters request] := by
  show ((tracing _ _).perform machine w).2.shared.2 = _
  rw [perform_tracing]

theorem Evaluator.traced_onlyCalls [Scalar α] (e : Evaluator σ α) :
    e.traced.Has fun _ a => a.Moves Event.OnlyCalls := by
  intro parameters request machine w
  exact ⟨[.called parameters request], rfl, e.trace_evaluate parameters request machine w⟩

/-- A manifold has what its own actions have beside the rest of the state. -/
theorem Manifold.beside_has [Scalar α] {ρ : Type} {P : (β : Type) → Action (σ × ρ) β → Prop}
    (hP : Action.Inherited P) (h : ∀ (β : Type) (a : Action σ β), P β a.beside)
    (m : Manifold σ α) : (m.beside (ρ := ρ)).Has P := by
  cases m with
  | custom manifold => exact ⟨fun _ _ => h _ _, fun _ => h _ _⟩
  | _ => exact Manifold.has_of_not_custom hP.chained nofun

theorem Manifold.beside_onlyCalls [Scalar α] (m : Manifold σ α) :
    (m.beside (ρ := List (Event α))).Has fun _ a => a.Moves Event.OnlyCalls := by
  refine m.beside_has (Action.inherited_moves Event.onlyCalls_refl Event.onlyCalls_trans) ?_
  intro β a machine w
  rw [Action.perform_beside]
  exact ⟨[], rfl, (List.append_nil w.shared.2).symm⟩

variable [Scalar α]

/-! ### The full answer -/

namespace Functions

/-- The residuals and the Jacobians of all blocks, these as the Jacobian function answers them;
nothing where there are none. -/
def full (f : Functions σ α) (parameters : List (Supplied α)) :
    Action σ (Option (List α × List (Supplied α))) := do
  match ← f.residuals parameters with
  | none => return none
  | some residuals =>
    match f.jacobian with
    | none => throw .noJacobian
    | some jacobian =>
      match ← jacobian parameters with
      | none => return none
      | some jacobians =>
        if jacobians.length = f.blockSizes.length then return some (residuals, jacobians)
        else throw (.size (.jacobianBlocks jacobians.length f.blockSizes.length))

/-- What a request chooses from the full answer. -/
def choose (f : Functions σ α) (mask : List Bool) :
    Option (List α × List (Supplied α)) → Except Fault (Option (Answer α))
  | none => .ok none
  | some (residuals, jacobians) =>
    (f.selectJacobians mask jacobians).map fun js => some ⟨.vector residuals, some js⟩

/-- **What is requested decides only what is chosen**, as long as something is requested. -/
theorem evaluate_eq_full (f : Functions σ α) (parameters : List (Supplied α)) {mask : List Bool}
    (hmask : mask.any id = true) :
    f.evaluate parameters (some mask) =
      f.full parameters >>= fun found => Action.ofExcept (f.choose mask found) := by
  unfold evaluate full
  rw [bind_assoc]
  congr 1
  funext found
  cases found with
  | none => rfl
  | some residuals =>
      simp only [hmask, if_true]
      unfold jacobians
      cases f.jacobian with
      | none => rfl
      | some jacobian =>
          simp only []
          rw [bind_assoc, bind_assoc]
          congr 1
          funext answer
          cases answer with
          | none => rfl
          | some answer =>
              simp only []
              split
              · show _ = Action.ofExcept ((f.selectJacobians mask answer).map _)
                cases f.selectJacobians mask answer <;> rfl
              · rfl

theorem full_deterministic {f : Functions σ α} (hf : f.Has fun _ a => a.Deterministic)
    (parameters : List (Supplied α)) : (f.full parameters).Deterministic := by
  have hP := Action.inherited_deterministic (σ := σ)
  refine hP.bind (residuals_inherits hP hf parameters) fun found => ?_
  cases found with
  | none => exact hP.pure _
  | some residuals =>
      cases hj : f.jacobian with
      | none => exact hP.throw _
      | some jacobian =>
          refine hP.bind (hf.2 jacobian hj parameters) fun answer => ?_
          cases answer with
          | none => exact hP.pure _
          | some jacobians =>
              simp only []
              split
              · exact hP.pure _
              · exact hP.throw _

/-! ### Reading the full answer once more -/

variable {f : Functions σ α}

/-- What is chosen for a block: what was read of its Jacobian if it was requested, and nothing
otherwise. -/
theorem getElem_select {mask : List Bool} {full chosen : List (Supplied α)}
    (h : f.selectJacobians mask full = .ok chosen) (k : ℕ) (hm : k < mask.length)
    (hs : k < f.blockSizes.length) (hk : k < full.length) (hc : k < chosen.length) :
    if mask[k] then
      ∃ t, chosen[k] = .array t ∧ readMatrix full[k] (.whole f.numResiduals)
        (.whole f.blockSizes[k]) ("jacobian[" ++ toString k ++ "]") = .ok t
    else chosen[k] = .nothing := by
  have hone := (Except.mapM_eq_ok_iff_getElem.1 h).2 k (by simp; omega) hc
  simp only [List.getElem_zipIdx, List.getElem_zip, Nat.zero_add] at hone
  split at hone
  · rename_i hwanted
    obtain ⟨t, ht, hjs⟩ := Except.bind_eq_ok_iff.1 hone
    rw [if_pos hwanted]
    exact ⟨t, (Except.ok.inj hjs).symm, ht⟩
  · rename_i hunwanted
    rw [if_neg hunwanted]
    exact (Except.ok.inj hone).symm

/-- If everything was requested, every Jacobian was read. -/
theorem jacobian_of_select {everything : List Bool} {full chosen : List (Supplied α)}
    (hall : ∀ wanted ∈ everything, wanted = true) (hm : everything.length = f.blockSizes.length)
    (h : f.selectJacobians everything full = .ok chosen) (k : ℕ) (hk : k < full.length)
    (hs : k < f.blockSizes.length) (hc : k < chosen.length) :
    ∃ t, chosen[k] = .array t ∧ readMatrix full[k] (.whole f.numResiduals)
      (.whole f.blockSizes[k]) ("jacobian[" ++ toString k ++ "]") = .ok t := by
  have hone := getElem_select h k (hm ▸ hs) hs hk hc
  rwa [if_pos (hall _ (List.getElem_mem _))] at hone

/-- **Choosing first or reading first is the same**: if everything was requested and then read once
more, every other request chooses from what was read. -/
theorem select_of_read (name : ℕ → String) {everything : List Bool}
    {full chosen : List (Supplied α)} {ts : List (Tensor α)}
    (hall : ∀ wanted ∈ everything, wanted = true)
    (hm : everything.length = f.blockSizes.length) (hf : full.length = f.blockSizes.length)
    (h : f.selectJacobians everything full = .ok chosen)
    (hread : ((chosen.zip (f.blockSizes.map Setting.whole)).zipIdx).mapM
      (fun p => readMatrix p.1.1 (.whole f.numResiduals) p.1.2 (name p.2)) = .ok ts)
    (mask : List Bool) : f.selectJacobians mask full = .ok (Monitor.requested mask ts) := by
  have hc : chosen.length = f.blockSizes.length := by
    have := (Except.mapM_eq_ok_iff_getElem.1 h).1
    simpa [hm, hf] using this.symm
  obtain ⟨hl, hentry⟩ := Except.mapM_eq_ok_iff_getElem.1 hread
  replace hl : f.blockSizes.length = ts.length := by simpa [hc] using hl
  -- what was read once more is what was read at first
  have hfull : ∀ k (hk : k < full.length) (hs : k < f.blockSizes.length) (ht : k < ts.length),
      readMatrix full[k] (.whole f.numResiduals) (.whole f.blockSizes[k])
        ("jacobian[" ++ toString k ++ "]") = .ok ts[k] := by
    intro k hk hs ht
    obtain ⟨t, hjs, hfirst⟩ := jacobian_of_select hall hm h k hk hs (hc ▸ hs)
    have hagain := hentry k (by simpa [hc] using hs) ht
    simp only [List.getElem_zipIdx, List.getElem_zip, List.getElem_map, hjs, Nat.zero_add] at hagain
    obtain ⟨m, n, hshape, hm, hn⟩ := shape_of_readMatrix hfirst
    rw [hm, hn, readMatrix_of_shape hshape] at hagain
    rw [hfirst, hagain]
  refine Except.mapM_eq_ok_iff_getElem.2 ⟨?_, fun k hk hk' => ?_⟩
  · simp only [Monitor.requested, List.length_zipIdx, List.length_zip, List.length_map]
    omega
  · simp only [List.length_zipIdx, List.length_zip] at hk
    have hone := hfull k (by omega) (by omega) (by omega)
    simp only [Monitor.requested, List.getElem_zipIdx, List.getElem_zip, List.getElem_map,
      Nat.zero_add]
    split
    · rw [hone]
      rfl
    · rfl

end Functions

/-! ### What a probe leaves in the record -/

namespace Ending

/-- What was read at the point, if the probe got so far. -/
def reading? : Ending α → Option (Reading α)
  | interrupted reading _ _ _ => some reading
  | compared reading _ _ => some reading
  | _ => none

variable {ending : Ending α} {reading : Reading α} {tolerance : α} {verdict : Bool}
  {cap : Int} {numResiduals : Setting} {sizes tangentSizes : List Setting} {before : Record α}

theorem record_of_reading (h : ending.reading? = some reading) :
    (ending.record cap numResiduals sizes tangentSizes before).success = true ∧
      (ending.record cap numResiduals sizes tangentSizes before).residuals =
        .vector reading.residuals ∧
      (ending.record cap numResiduals sizes tangentSizes before).ambient = reading.jacobians := by
  cases ending with
  | interrupted found _ _ _ =>
      obtain rfl := Option.some.inj h
      exact ⟨rfl, rfl, rfl⟩
  | compared found _ _ =>
      obtain rfl := Option.some.inj h
      exact ⟨rfl, rfl, rfl⟩
  | _ => cases h

theorem success_reset : (before.reset numResiduals sizes tangentSizes).2.success = false := by
  unfold Record.reset
  dsimp only
  repeat' split
  all_goals rfl

/-- A probe that answered without having read anything found no value at the point. -/
theorem success_of_no_reading (hv : ending.verdict tolerance = .ok verdict)
    (h : ending.reading? = none) :
    (ending.record cap numResiduals sizes tangentSizes before).success = false := by
  cases ending with
  | pointFailed => exact success_reset
  | interrupted => cases h
  | compared => cases h
  | _ => cases hv

end Ending

/-- A probe that answers has read the point, and knows what it read there. -/
theorem Checker.read_of_runAt {c : Checker σ α} {machine : Machine} {w w' : World σ}
    {blocks : List (List α)} {tolerance : α} {recording : Bool} {ending : Ending α}
    {verdict : Bool}
    (h : (c.runAt blocks tolerance recording).perform machine w = (.ok ending, w'))
    (hv : ending.verdict tolerance = .ok verdict) :
    ((c.read blocks).perform machine w).1 = .ok ending.reading? := by
  cases ends_of_runAt h with
  | faulted => cases hv
  | pointFailed hread =>
      rw [hread]
      rfl
  | interrupted hread => rw [hread, Ending.reading?]
  | incomparable hread => rw [hread, Ending.reading?]
  | compared hread => rw [hread, Ending.reading?]

/-- Where all manifolds of a checker were put beside the rest of the state, so were those of its
blocks. -/
theorem Checker.exists_beside_of_make {ρ : Type} {e : Evaluator (σ × ρ) α}
    {manifolds : Option (List (Option (Manifold σ α)))} {options : DiffOptions α} {cap : Setting}
    {c : Checker (σ × ρ) α}
    (h : make e (manifolds.map fun given => given.map fun m => m.map Manifold.beside) options cap =
      .ok c) {space : BlockSpace (σ × ρ) α} (hspace : space ∈ c.spaces) {m : Manifold (σ × ρ) α}
    (hm : m ∈ space.manifold) : ∃ original : Manifold σ α, m = original.beside := by
  obtain ⟨-, -, -, hmanifolds⟩ := of_make h
  obtain ⟨given, hgiven, hmem⟩ := hmanifolds space hspace m hm
  obtain ⟨list, -, rfl⟩ := Option.map_eq_some_iff.1 hgiven
  obtain ⟨inner, -, hinner⟩ := List.mem_map.1 hmem
  obtain ⟨original, -, rfl⟩ := Option.map_eq_some_iff.1 hinner
  exact ⟨original, rfl⟩

/-- A full answer with Jacobians comes from usable residuals and from a Jacobian function that
answered for every block. -/
theorem Functions.of_full {f : Functions σ α} {parameters : List (Supplied α)}
    {machine : Machine} {w w' : World σ} {residuals : List α} {jacobians : List (Supplied α)}
    (h : (f.full parameters).perform machine w = (.ok (some (residuals, jacobians)), w')) :
    ∃ w₁, (f.residuals parameters).perform machine w = (.ok (some residuals), w₁) ∧
      jacobians.length = f.blockSizes.length := by
  obtain ⟨found, w₁, hfound, h⟩ := Action.perform_bind_eq_ok_iff.1 h
  cases found with
  | none => cases h
  | some found =>
      cases hj : f.jacobian with
      | none =>
          simp only [hj] at h
          cases h
      | some jacobian =>
          simp only [hj] at h
          obtain ⟨answer, w₂, _, h⟩ := Action.perform_bind_eq_ok_iff.1 h
          cases answer with
          | none => cases h
          | some answer =>
              simp only [] at h
              split at h
              · rename_i hlen
                rw [Action.perform_pure, Prod.mk.injEq, Except.ok.injEq, Option.some.injEq,
                  Prod.mk.injEq] at h
                obtain ⟨⟨rfl, rfl⟩, -⟩ := h
                exact ⟨w₁, hfound, hlen⟩
              · cases h

/-- What the functions answer to any request can be told from what a checker read at the point, if
its evaluator is asked for what they answer. -/
theorem Functions.evaluate_of_read {ρ : Type} {f : Functions σ α}
    (hf : f.Has fun _ a => a.Deterministic) {c : Checker ρ α} {blocks : List (List α)}
    {machine : Machine} {w : World ρ} {w₀ : World σ}
    (hcalled : ∀ mask : List Bool, mask.any id = true →
      ((c.evaluator.evaluate (blocks.map .vector) (some mask)).perform machine w).1 =
        ((f.full (blocks.map .vector)).perform machine w₀).1 >>= f.choose mask)
    (hcount : c.evaluator.numResiduals = .whole f.numResiduals)
    (hsizes : c.sizes = f.blockSizes.map Setting.whole) (hne : f.blockSizes ≠ [])
    (hb : blocks.length = f.blockSizes.length) {found : Option (Reading α)}
    (h : ((c.read blocks).perform machine w).1 = .ok found) {mask : List Bool}
    (hmask : mask.any id = true) (w₁ : World σ) :
    ((f.evaluate (blocks.map .vector) (some mask)).perform machine w₁).1 =
      .ok (found.map fun r =>
        ⟨.vector r.residuals, some (Monitor.requested mask r.jacobians)⟩) := by
  have hall : (blocks.map fun _ => true).any id = true := by
    cases blocks with
    | nil => exact absurd (List.eq_nil_of_length_eq_zero hb.symm) hne
    | cons block rest => rfl
  rw [f.evaluate_eq_full _ hmask, Action.fst_perform_bind_ofExcept,
    full_deterministic hf _ machine w₁ w₀]
  -- what the probe asks the evaluator is answered from the same full answer
  have hanswer := hcalled _ hall
  obtain ⟨answer, w₂, hperform, hrest⟩ := Action.perform_bind_eq_ok_iff.1 (eq_mk_of_fst h)
  rw [hperform] at hanswer
  rcases hfull : (f.full (blocks.map .vector)).perform machine w₀ with
    ⟨fault | _ | ⟨residuals, full⟩, w₃⟩ <;> rw [hfull] at hanswer
  · cases hanswer
  · obtain rfl := Except.ok.inj hanswer
    obtain rfl : none = found := Except.ok.inj (Prod.mk.inj hrest).1
    rfl
  · obtain ⟨chosen, hchosen, hone⟩ := Except.map_eq_ok_iff.1 hanswer.symm
    obtain rfl := hone
    obtain ⟨rs, w₄, hrs, hrest⟩ := Action.perform_bind_eq_ok_iff.1 hrest
    rw [Action.perform_ofExcept, Prod.mk.injEq] at hrs
    obtain rfl : residuals = rs := Except.ok.inj (entries_of_readResiduals hrs.1)
    simp only [] at hrest
    split at hrest
    · obtain ⟨ts, w₅, hts, hrest⟩ := Action.perform_bind_eq_ok_iff.1 hrest
      rw [Action.perform_ofExcept, Prod.mk.injEq, hsizes, hcount] at hts
      obtain rfl := Except.ok.inj (Prod.mk.inj hrest).1
      have hselect := select_of_read (fun k => "Jacobian of block " ++ toString k)
        (by simp) (by simpa using hb) (of_full hfull).choose_spec.2 hchosen hts.1 mask
      show (f.selectJacobians mask full).map _ = _
      rw [hselect]
      rfl
    · cases hrest

/-! ### Answers of a monitor -/

namespace Monitor

variable {f : Functions σ α} {c : Checker (σ × List (Event α)) α} {machine : Machine}
  {w : World (σ × List (Event α))} {blocks : List (List α)} {mask : List Bool}

/-- What the evaluator is asked for is chosen from the full answer of the functions. -/
theorem fst_evaluate_traced (he : c.evaluator = f.toEvaluator.traced)
    (hmask : mask.any id = true) (blocks : List (List α)) (machine : Machine)
    (w : World (σ × List (Event α))) :
    ((c.evaluator.evaluate (blocks.map .vector) (some mask)).perform machine w).1 =
      ((f.full (blocks.map .vector)).perform machine { w with shared := w.shared.1 }).1 >>=
        f.choose mask := by
  rw [he]
  show ((tracing (.called (blocks.map .vector) (some mask))
    (f.evaluate (blocks.map .vector) (some mask))).perform machine w).1 = _
  rw [perform_tracing, f.evaluate_eq_full _ hmask]
  exact Action.fst_perform_bind_ofExcept _ _ _ _

/-- What the evaluator answers to any request can be told from what was read at the point. -/
theorem evaluate_of_read (hf : f.Has fun _ a => a.Deterministic)
    (he : c.evaluator = f.toEvaluator.traced)
    (hsizes : c.sizes = f.blockSizes.map Setting.whole) (hne : f.blockSizes ≠ [])
    (hb : blocks.length = f.blockSizes.length) {found : Option (Reading α)}
    (h : ((c.read blocks).perform machine w).1 = .ok found) (hmask : mask.any id = true)
    (w₀ : World σ) :
    ((f.evaluate (blocks.map .vector) (some mask)).perform machine w₀).1 =
      .ok (found.map fun r => ⟨.vector r.residuals, some (requested mask r.jacobians)⟩) :=
  f.evaluate_of_read hf (fun _ hasked => fst_evaluate_traced he hasked blocks machine w)
    (congrArg Evaluator.numResiduals he) hsizes hne hb h hmask w₀

/-! ### What an evaluation by the monitor does -/

section Evaluate

variable {ρ : Type} {m : Monitor ρ α} {w w₁ : World ρ} {parameters : List (Supplied α)}

/-- What a monitor makes of a probe that has a verdict. -/
theorem perform_evaluate_of_verdict {passed : Bool} {record : Record α}
    (hp : (m.checker.probeInto parameters m.tolerance Record.blank).perform machine w =
      (.ok (.ok passed, record), w₁)) (hmask : mask.any id = true) :
    (m.evaluate parameters (some mask)).perform machine w =
      if record.success then
        ((if passed then pure ()
          else do
            Action.warn (m.reportText record.log)
            m.callback (m.reportText record.log)) >>= fun _ =>
          pure (some (⟨.array record.residuals, some (requested mask record.ambient)⟩ :
            Answer α))).perform machine w₁
      else (.ok none, w₁) := by
  simp only [evaluate, hmask, if_true]
  rw [Action.perform_bind_of_ok hp]
  refine (Action.perform_ofExcept_bind rfl).trans ?_
  cases record.success with
  | false => rfl
  | true => cases passed <;> rfl

/-- Where the probe has no verdict the call has a fault, and the monitor does nothing more. -/
theorem perform_evaluate_of_no_verdict {answer : Except Fault (Except Fault Bool × Record α)}
    (hp : (m.checker.probeInto parameters m.tolerance Record.blank).perform machine w =
      (answer, w₁)) (hno : ∀ passed record, answer ≠ .ok (.ok passed, record))
    (hmask : mask.any id = true) :
    ∃ fault, (m.evaluate parameters (some mask)).perform machine w = (.error fault, w₁) := by
  simp only [evaluate, hmask, if_true]
  rcases answer with fault | ⟨fault | passed, record⟩
  · exact ⟨fault, Action.perform_bind_of_error hp⟩
  · -- the probe itself went through, and what it answers with is a fault
    refine ⟨fault, ?_⟩
    rw [Action.perform_bind_of_ok hp]
    exact Action.perform_bind_of_error (Action.perform_ofExcept machine w₁ _)
  · exact absurd rfl (hno passed record)

end Evaluate

/-- A monitor of functions whose calls and reports are observed. -/
def observing (f : Functions σ α) (manifolds : Option (List (Option (Manifold σ α))))
    (tolerance : α) (callback : String → Action σ Unit) (label : String)
    (options : DiffOptions α) (cap : Setting) : Except Fault (Monitor (σ × List (Event α)) α) :=
  make f.toEvaluator.traced (manifolds.map fun given => given.map fun m => m.map Manifold.beside)
    tolerance (fun message => tracing (.reported message) (callback message)) label options cap

variable {manifolds : Option (List (Option (Manifold σ α)))} {tolerance : α}
  {callback : String → Action σ Unit} {label : String} {options : DiffOptions α} {cap : Setting}
  {m : Monitor (σ × List (Event α)) α}

/-- What a monitor that was accepted is made of. -/
theorem of_make {ρ : Type} {e : Evaluator ρ α} {manifolds : Option (List (Option (Manifold ρ α)))}
    {tolerance : α} {callback : String → Action ρ Unit} {label : String} {options : DiffOptions α}
    {cap : Setting} {m : Monitor ρ α}
    (h : make e manifolds tolerance callback label options cap = .ok m) :
    Checker.make e manifolds options cap = .ok m.checker ∧ m.tolerance = tolerance ∧
      Scalar.le Scalar.zero tolerance = true ∧ m.callback = callback ∧ m.label = label := by
  unfold make at h
  split at h
  · cases h
  · rename_i ht
    obtain ⟨c, hc, h⟩ := Except.bind_eq_ok_iff.1 h
    obtain rfl := Except.ok.inj h
    exact ⟨hc, rfl, by simpa using ht, rfl, rfl⟩

theorem of_observing
    (h : observing f manifolds tolerance callback label options cap = .ok m) :
    m.checker.evaluator = f.toEvaluator.traced ∧
      m.checker.sizes = f.blockSizes.map Setting.whole ∧ f.blockSizes ≠ [] ∧
      m.checker.Has (fun _ a => a.Moves Event.OnlyCalls) ∧
      m.callback = fun message => tracing (.reported message) (callback message) := by
  obtain ⟨hc, -, -, hcallback, -⟩ := of_make h
  obtain ⟨he, -, ⟨sizes, hs, hsizes⟩, -⟩ := Checker.of_make hc
  obtain ⟨rfl, hne⟩ := readSizes_whole hs
  refine ⟨he, hsizes, hne, ⟨?_, fun space hspace m hm => ?_⟩, hcallback⟩
  · rw [he]
    exact Evaluator.traced_onlyCalls _
  · obtain ⟨original, rfl⟩ := Checker.exists_beside_of_make hc hspace hm
    exact Manifold.beside_onlyCalls original

/-- A probe leaves nothing but calls behind. -/
theorem messages_of_onlyCalls_probe (hc : m.checker.Has fun _ a => a.Moves Event.OnlyCalls)
    {parameters : List (Supplied α)} {before : Record α}
    {answer : Except Fault (Except Fault Bool × Record α)} {w₁ : World (σ × List (Event α))}
    (hp : (m.checker.probeInto parameters m.tolerance before).perform machine w = (answer, w₁)) :
    Event.messages w₁.shared.2 = Event.messages w.shared.2 := by
  have hP := Action.inherited_moves Event.onlyCalls_refl (Event.onlyCalls_trans (σ := σ) (α := α))
  have hrun := Checker.run_inherits hP hc parameters m.tolerance true
  have hmoves := hP.bind hrun (fun ending => hP.pure (ending.verdict m.tolerance,
    ending.record m.checker.cap m.checker.evaluator.numResiduals m.checker.sizes
      m.checker.tangentSizes before)) machine w
  have h := Event.messages_of_onlyCalls hmoves
  rwa [show ((m.checker.run _ _ _ >>= _).perform machine w) = (answer, w₁) from hp] at h

/-- A probe that answers answers for the point that the driver asked for: what the evaluator would
have answered is in the record. -/
theorem evaluate_of_probe (hf : f.Has fun _ a => a.Deterministic)
    (hm : observing f manifolds tolerance callback label options cap = .ok m)
    {passed : Bool} {record : Record α} {w₁ : World (σ × List (Event α))}
    (hp : (m.checker.probeInto (blocks.map .vector) m.tolerance Record.blank).perform machine w =
      (.ok (.ok passed, record), w₁)) (hmask : mask.any id = true) (w₀ : World σ) :
    ((f.evaluate (blocks.map .vector) (some mask)).perform machine w₀).1 =
      .ok (if record.success then
        some ⟨.array record.residuals, some (requested mask record.ambient)⟩ else none) := by
  obtain ⟨he, hsizes, hne, -, -⟩ := of_observing hm
  obtain ⟨ending, w₂, hrun, hp⟩ := Action.perform_bind_eq_ok_iff.1 hp
  rw [Action.perform_pure, Prod.mk.injEq, Except.ok.injEq, Prod.mk.injEq] at hp
  obtain ⟨⟨hv, rfl⟩, -⟩ := hp
  obtain ⟨-, blocks', hblocks, hat⟩ := Checker.of_run_verdict hrun hv
  obtain rfl := (readBlocks_vector_iff.1 hblocks).1
  have hlen : blocks'.length = f.blockSizes.length := by
    rw [length_of_readBlocks hblocks, hsizes, List.length_map]
  have hread := Checker.read_of_runAt hat hv
  rw [evaluate_of_read hf he hsizes hne hlen hread hmask w₀]
  cases hreading : ending.reading? with
  | none =>
      rw [Ending.success_of_no_reading hv hreading]
      rfl
  | some reading =>
      obtain ⟨hs, hr, ha⟩ := Ending.record_of_reading hreading
      rw [hs, hr, ha]
      rfl

/-- What a monitor does about a verdict before it answers. -/
def respond (m : Monitor (σ × List (Event α)) α) (passed : Bool) (record : Record α) :
    Action (σ × List (Event α)) Unit :=
  if passed then pure ()
  else do
    Action.warn (m.reportText record.log)
    m.callback (m.reportText record.log)

/-- What a monitor makes of a probe that answered. -/
theorem perform_evaluate {parameters : List (Supplied α)} {passed : Bool} {record : Record α}
    {w₁ : World (σ × List (Event α))}
    (hp : (m.checker.probeInto parameters m.tolerance Record.blank).perform machine w =
      (.ok (.ok passed, record), w₁)) (hmask : mask.any id = true) :
    (m.evaluate parameters (some mask)).perform machine w =
      if record.success then
        (m.respond passed record >>= fun _ => pure (some
          ⟨.array record.residuals, some (requested mask record.ambient)⟩)).perform machine w₁
      else (.ok none, w₁) :=
  perform_evaluate_of_verdict hp hmask

/-- The check fails at a point where the evaluator has a value, and the record says how. -/
def Alarms (m : Monitor (σ × List (Event α)) α) (f : Functions σ α) (machine : Machine)
    (w : World (σ × List (Event α))) (blocks : List (List α)) (request : Option (List Bool))
    (record : Record α) : Prop :=
  (∃ mask, request = some mask ∧ mask.any id = true) ∧
    (∃ answer, ((f.evaluate (blocks.map .vector) request).perform machine
      { w with shared := w.shared.1 }).1 = .ok (some answer)) ∧
    ∃ w₁, (m.checker.probeInto (blocks.map .vector) m.tolerance Record.blank).perform machine w =
      (.ok (.ok false, record), w₁)

/-- Where nothing is requested, the monitor is the evaluator. -/
theorem evaluate_of_no_request {ρ : Type} {m : Monitor ρ α} {request : Option (List Bool)}
    {parameters : List (Supplied α)}
    (hrequest : ∀ mask, request = some mask → mask.any id = false) :
    m.evaluate parameters request = m.checker.evaluator.evaluate parameters request := by
  cases request with
  | none => rfl
  | some mask =>
      simp only [evaluate, hrequest mask rfl, Bool.false_eq_true, if_false]

/-- A monitor that answers a request has probed. -/
theorem probe_of_evaluate {parameters : List (Supplied α)} {answer : Option (Answer α)}
    {w' : World (σ × List (Event α))} (hmask : mask.any id = true)
    (h : (m.evaluate parameters (some mask)).perform machine w = (.ok answer, w')) :
    ∃ passed record w₁,
      (m.checker.probeInto parameters m.tolerance Record.blank).perform machine w =
        (.ok (.ok passed, record), w₁) ∧
      answer = if record.success then
        some ⟨.array record.residuals, some (requested mask record.ambient)⟩ else none := by
  have hprobe := h
  simp only [evaluate, hmask, if_true] at hprobe
  obtain ⟨⟨verdict, record⟩, w₁, hp, hprobe⟩ := Action.perform_bind_eq_ok_iff.1 hprobe
  obtain ⟨passed, w₂, hv, -⟩ := Action.perform_bind_eq_ok_iff.1 hprobe
  rw [Action.perform_ofExcept, Prod.mk.injEq] at hv
  obtain ⟨rfl, rfl⟩ := hv
  refine ⟨passed, record, w₁, hp, ?_⟩
  rw [perform_evaluate hp hmask] at h
  by_cases hs : record.success = true
  · rw [if_pos hs] at h ⊢
    obtain ⟨_, _, _, h⟩ := Action.perform_bind_eq_ok_iff.1 h
    exact (Except.ok.inj (Prod.mk.inj h).1).symm
  · rw [if_neg hs] at h ⊢
    exact (Except.ok.inj (Prod.mk.inj h).1).symm

/-- What is heard of a monitor whose probe gave a verdict: one report if the check failed where the
evaluator has a value, whatever the callback makes of it, and nothing otherwise. -/
theorem messages_of_probe (hm : observing f manifolds tolerance callback label options cap = .ok m)
    {parameters : List (Supplied α)} {passed : Bool} {record : Record α}
    {w₁ : World (σ × List (Event α))}
    (hp : (m.checker.probeInto parameters m.tolerance Record.blank).perform machine w =
      (.ok (.ok passed, record), w₁)) (hmask : mask.any id = true) :
    Event.messages ((m.evaluate parameters (some mask)).perform machine w).2.shared.2 =
      Event.messages w.shared.2 ++
        if record.success = true ∧ passed = false then [m.reportText record.log] else [] := by
  obtain ⟨-, -, -, hc, hcallback⟩ := of_observing hm
  have hquiet := messages_of_onlyCalls_probe hc hp
  rw [perform_evaluate hp hmask]
  cases record.success with
  | false => simpa using hquiet
  | true =>
      cases passed with
      | true =>
          rw [if_pos rfl, if_neg (by simp), List.append_nil]
          exact hquiet
      | false =>
          -- the event is left behind before the callback does anything
          have hrespond : ((m.respond false record).perform machine w₁).2.shared.2 =
              w₁.shared.2 ++ [.reported (m.reportText record.log)] := by
            show ((Action.warn _ >>= fun _ => m.callback _).perform machine w₁).2.shared.2 = _
            rw [Action.perform_bind_of_ok (Action.perform_warn _), hcallback]
            simp only [perform_tracing]
          have hmessages : ∀ w₂ : World (σ × List (Event α)),
              w₂.shared.2 = w₁.shared.2 ++ [.reported (m.reportText record.log)] →
              Event.messages w₂.shared.2 =
                Event.messages w₁.shared.2 ++ [m.reportText record.log] := by
            intro w₂ h
            rw [h, Event.messages, List.filterMap_append]
            rfl
          rw [if_pos rfl, if_pos ⟨rfl, rfl⟩, ← hquiet, Action.perform_bind]
          rcases hdone : (m.respond false record).perform machine w₁ with ⟨fault | x, w₂⟩ <;>
            rw [hdone] at hrespond
          · exact hmessages w₂ hrespond
          · exact hmessages w₂ hrespond

/-- Nothing is heard of a monitor whose probe gave no verdict. -/
theorem messages_of_no_verdict
    (hm : observing f manifolds tolerance callback label options cap = .ok m)
    {parameters : List (Supplied α)} (hmask : mask.any id = true)
    (hno : ∀ passed record w₁,
      (m.checker.probeInto parameters m.tolerance Record.blank).perform machine w ≠
        (.ok (.ok passed, record), w₁)) :
    Event.messages ((m.evaluate parameters (some mask)).perform machine w).2.shared.2 =
      Event.messages w.shared.2 := by
  obtain ⟨-, -, -, hc, -⟩ := of_observing hm
  rcases hp : (m.checker.probeInto parameters m.tolerance Record.blank).perform machine w with
    ⟨answer, w₁⟩
  obtain ⟨fault, hdone⟩ := perform_evaluate_of_no_verdict hp
    (fun passed record h => hno passed record w₁ (hp.trans (by rw [h]))) hmask
  rw [hdone]
  exact messages_of_onlyCalls_probe hc hp

/-- There is an alarm exactly when a probe with a value at the point says no. -/
theorem alarms_iff (hf : f.Has fun _ a => a.Deterministic)
    (hm : observing f manifolds tolerance callback label options cap = .ok m)
    (hmask : mask.any id = true) {passed : Bool} {record : Record α}
    {w₁ : World (σ × List (Event α))}
    (hp : (m.checker.probeInto (blocks.map .vector) m.tolerance Record.blank).perform machine w =
      (.ok (.ok passed, record), w₁)) :
    m.Alarms f machine w blocks (some mask) record ↔ record.success = true ∧ passed = false := by
  have hanswer := evaluate_of_probe hf hm hp hmask { w with shared := w.shared.1 }
  constructor
  · rintro ⟨-, ⟨answer, hvalue⟩, w₂, hp'⟩
    rw [hp] at hp'
    obtain ⟨rfl, -⟩ : passed = false ∧ w₁ = w₂ := by simpa using hp'
    refine ⟨?_, rfl⟩
    rw [hanswer] at hvalue
    by_contra hno
    rw [if_neg hno] at hvalue
    cases hvalue
  · rintro ⟨hsuccess, rfl⟩
    rw [if_pos hsuccess] at hanswer
    exact ⟨⟨mask, rfl, hmask⟩, ⟨_, hanswer⟩, w₁, hp⟩

/-- **A monitor is transparent.** Whenever it answers, it answers what the evaluator answers to the
same request from any world; it reports once for an alarm and never without one; and where no
Jacobian is requested, it does nothing but call the evaluator. -/
theorem evaluate_transparent (f : Functions σ α) (hf : f.Has fun _ a => a.Deterministic)
    (manifolds : Option (List (Option (Manifold σ α)))) (tolerance : α)
    (callback : String → Action σ Unit) (label : String) (options : DiffOptions α) (cap : Setting)
    (m : Monitor (σ × List (Event α)) α)
    (hm : observing f manifolds tolerance callback label options cap = .ok m)
    (blocks : List (List α)) (request : Option (List Bool)) (machine : Machine)
    (w : World (σ × List (Event α))) :
    let done := (m.evaluate (blocks.map .vector) request).perform machine w
    (∀ answer, done.1 = .ok answer →
      ∀ w₀, ((f.evaluate (blocks.map .vector) request).perform machine w₀).1 = .ok answer) ∧
    (∀ record, m.Alarms f machine w blocks request record →
      Event.messages done.2.shared.2 =
        Event.messages w.shared.2 ++ [m.reportText record.log]) ∧
    ((∀ record, ¬m.Alarms f machine w blocks request record) →
      Event.messages done.2.shared.2 = Event.messages w.shared.2) ∧
    ((∀ mask, request = some mask → mask.any id = false) →
      done.2.shared.2 = w.shared.2 ++ [.called (blocks.map .vector) request]) := by
  intro done
  obtain ⟨he, -⟩ := of_observing hm
  have hanswers : f.toEvaluator.Has fun _ a => a.Deterministic :=
    Functions.evaluate_inherits Action.inherited_deterministic hf
  by_cases hrequest : ∀ mask, request = some mask → mask.any id = false
  · -- the request is passed on
    have hdone : done = (tracing (.called (blocks.map .vector) request)
        (f.evaluate (blocks.map .vector) request)).perform machine w := by
      show (m.evaluate _ _).perform machine w = _
      rw [evaluate_of_no_request hrequest, he]
      rfl
    rw [perform_tracing] at hdone
    have htrace : done.2.shared.2 = w.shared.2 ++ [.called (blocks.map .vector) request] := by
      rw [hdone]
    have hmessages : Event.messages done.2.shared.2 = Event.messages w.shared.2 := by
      rw [htrace]
      simp [Event.messages, Event.message?]
    refine ⟨fun answer h w₀ => ?_, fun record h => ?_, fun _ => hmessages, fun _ => htrace⟩
    · rw [hdone] at h
      exact (hanswers _ request machine w₀ { w with shared := w.shared.1 }).trans h
    · obtain ⟨⟨mask, rfl, hmask⟩, -, -⟩ := h
      rw [hrequest mask rfl] at hmask
      cases hmask
  · -- the request is answered from a probe
    obtain ⟨mask, rfl, hmask⟩ : ∃ mask, request = some mask ∧ mask.any id = true := by
      simpa using hrequest
    refine ⟨fun answer h w₀ => ?_, fun record h => ?_, fun h => ?_, fun h => absurd h hrequest⟩
    · obtain ⟨passed, record, w₁, hp, rfl⟩ := probe_of_evaluate hmask (eq_mk_of_fst h)
      exact evaluate_of_probe hf hm hp hmask w₀
    · obtain ⟨w₁, hp⟩ := h.2.2
      have hmessages := messages_of_probe hm hp hmask
      rwa [if_pos ((alarms_iff hf hm hmask hp).1 h)] at hmessages
    · by_cases hverdict : ∃ passed record w₁,
        (m.checker.probeInto (blocks.map .vector) m.tolerance Record.blank).perform machine w =
          (.ok (.ok passed, record), w₁)
      · obtain ⟨passed, record, w₁, hp⟩ := hverdict
        have hmessages := messages_of_probe hm hp hmask
        rwa [if_neg fun hfailed => h record ((alarms_iff hf hm hmask hp).2 hfailed),
          List.append_nil] at hmessages
      · exact messages_of_no_verdict hm hmask fun passed record w₁ hp =>
          hverdict ⟨passed, record, w₁, hp⟩

end Monitor

/-! ### A monitor that raises an alarm -/

/-- The monitor of the functions whose Jacobian is wrong along `x₁`, which nothing holds here. -/
def slantedMonitor : Monitor (Unit × List (Event Float)) Float where
  checker := ⟨slanted.toEvaluator.traced, [.plain (.count 2), .plain (.count 1)],
    DiffOptions.standard, 3⟩
  tolerance := 1e-9
  callback := fun message => tracing (.reported message) (pure ())
  label := "slanted"

/-- The point `x = (1, 5)`, `y = 3`, as plain numbers. -/
def slantedBlocks : List (List Float) := [[1.0, 5.0], [3.0]]

/-- Both functions answer without calling anybody. -/
theorem slanted_has {P : (β : Type) → Action Unit β → Prop} (hP : Action.Chained P) :
    slanted.Has P := by
  refine ⟨fun parameters => hP.ofExcept _, fun jacobian hj parameters => ?_⟩
  obtain rfl := Option.some.inj hj
  exact hP.pure _

/-- So does the manifold of its first block. -/
theorem slantedChecker_manifolds_have {P : (β : Type) → Action Unit β → Prop}
    (hP : Action.Chained P) : ∀ space ∈ slantedChecker.spaces, ∀ m ∈ space.manifold, m.Has P := by
  intro space hs m hm
  rcases List.mem_cons.1 hs with rfl | hs
  · obtain rfl := Option.some.inj hm
    exact Manifold.has_of_not_custom hP nofun
  · obtain rfl := List.mem_singleton.1 hs
    cases hm

theorem slanted_deterministic : slanted.Has fun _ a => a.Deterministic :=
  slanted_has Action.inherited_deterministic.chained

theorem evaluate_transparent_slanted :
    (slanted.Has fun _ a => a.Deterministic) ∧
      Monitor.observing slanted none 1e-9 (fun _ => pure ()) "slanted" DiffOptions.standard
        (.whole 3) = .ok slantedMonitor ∧
      ∃ record, slantedMonitor.Alarms slanted plainMachine ⟨((), []), [], []⟩ slantedBlocks
          (some [true, false]) record ∧
        Event.messages ((slantedMonitor.evaluate (slantedBlocks.map .vector)
          (some [true, false])).perform plainMachine ⟨((), []), [], []⟩).2.shared.2 =
            [slantedMonitor.reportText record.log] := by
  have hmake : Monitor.observing slanted none 1e-9 (fun _ => pure ()) "slanted"
      DiffOptions.standard (.whole 3) = .ok slantedMonitor := by
    have ht : Scalar.le Scalar.zero (1e-9 : Float) = true := by decide +kernel
    unfold Monitor.observing Monitor.make
    rw [ht]
    rfl
  have hprobe : ((slantedMonitor.checker.probeInto (slantedBlocks.map .vector) 1e-9
      Record.blank).perform plainMachine ⟨((), []), [], []⟩).1.map Prod.fst = .ok (.ok false) := by
    decide +kernel
  have hvalue : ((slanted.evaluate (slantedBlocks.map .vector) (some [true, false])).perform
      plainMachine ⟨(), [], []⟩).1.map Option.isSome = .ok true := by decide +kernel
  obtain ⟨⟨verdict, record⟩, hr, rfl⟩ := Except.map_eq_ok_iff.1 hprobe
  obtain ⟨_ | answer, ha, hsome⟩ := Except.map_eq_ok_iff.1 hvalue
  · cases hsome
  · have halarm : slantedMonitor.Alarms slanted plainMachine ⟨((), []), [], []⟩
        slantedBlocks (some [true, false]) record :=
      ⟨⟨_, rfl, rfl⟩, ⟨answer, ha⟩, _, eq_mk_of_fst hr⟩
    have h := Monitor.evaluate_transparent slanted slanted_deterministic none 1e-9
      (fun _ => pure ()) "slanted" DiffOptions.standard (.whole 3) slantedMonitor hmake
      slantedBlocks (some [true, false]) plainMachine ⟨((), []), [], []⟩
    exact ⟨slanted_deterministic, hmake, record, halarm, h.2.1 record halarm⟩

end JacobianAudit
