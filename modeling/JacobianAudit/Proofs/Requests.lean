/-
**Requests for Jacobians.**

A request names the blocks whose Jacobians are wanted. For an evaluator that is put together from
functions it only decides what is shown: the residuals, whether there is an answer, and each
Jacobian that is shown are the same whatever else is requested. A probe asks for everything once
and relies on this.

Main definitions:

* `JacobianAudit.Asks` — some block is requested;
* `JacobianAudit.Functions.Conforms` — an answer has the declared sizes and shows what was
  requested;
* `JacobianAudit.Functions.Causes` — a fault is a function's own, or that of an array it hands over;
* `JacobianAudit.Functions.Consistent` — what the answers to different requests have in common.

Main results:

* `JacobianAudit.Functions.conforms_of_evaluate` — every answer conforms to its request;
* `JacobianAudit.Functions.fault_of_evaluate` — where a value of a wrong kind is met;
* `JacobianAudit.Functions.evaluate_consistent` — **the answers to all requests agree**.
-/

import JacobianAudit.Proofs.Costs
import JacobianAudit.Proofs.Transparency

set_option autoImplicit false

namespace JacobianAudit

variable {σ α : Type}

/-- A value was met that is not of the kind that is wanted. -/
def Fault.IsMistyped : Fault → Prop
  | noJacobian => True
  | notNumeric => True
  | notList => True
  | unknownSetting => True
  | _ => False

/-- Some block is requested. -/
def Asks (request : Option (List Bool)) : Prop := ∃ mask ∈ request, mask.any id = true

/-- The Jacobian that an answer shows for a block; it may show nothing there. -/
def Answer.jacobianAt (answer : Answer α) (k : ℕ) : Option (Supplied α) :=
  answer.jacobians.bind fun jacobians => jacobians[k]?

variable [Scalar α]

namespace Functions

/-! ### What an answer shows -/

/-- The answer has the declared sizes and shows what was requested, and no more. -/
structure Conforms (f : Functions σ α) (request : Option (List Bool)) (answer : Answer α) :
    Prop where
  /-- There are as many residuals as declared, and all of them are finite. -/
  residuals : ∃ xs : List α, answer.residuals = .vector xs ∧ (xs.length : ℤ) = f.numResiduals ∧
    xs.all Scalar.isFinite = true
  /-- There are Jacobians if some were requested. -/
  jacobians_eq_none_iff : answer.jacobians = none ↔ ¬Asks request
  /-- There is one entry per block. -/
  length_eq : ∀ js ∈ answer.jacobians, js.length = f.blockSizes.length
  /-- Nothing is shown for the blocks that were not requested, and for these only. -/
  eq_nothing_iff : ∀ mask ∈ request, ∀ js ∈ answer.jacobians, ∀ k (hm : k < mask.length)
    (hk : k < js.length), js[k] = .nothing ↔ mask[k] = false
  /-- For the others there is a matrix of the declared shape. -/
  shape_eq : ∀ mask ∈ request, ∀ js ∈ answer.jacobians, ∀ k (hm : k < mask.length)
    (hk : k < js.length) (hs : k < f.blockSizes.length), mask[k] = true →
      ∃ (t : Tensor α) (m n : ℕ), js[k] = .array t ∧ t.shape = [m, n] ∧ f.numResiduals = m ∧
        f.blockSizes[k] = n

variable {f : Functions σ α} {parameters : List (Supplied α)} {machine : Machine} {w w' : World σ}
  {request : Option (List Bool)} {mask : List Bool} {answer : Answer α} {fault : Fault}

/-- A request that asks for nothing leaves all Jacobians out. -/
theorem evaluate_of_not_asks (h : ¬Asks request) :
    f.evaluate parameters request = f.evaluate parameters none := by
  cases request with
  | none => rfl
  | some mask =>
      have hmask : mask.any id = false := by
        by_contra hasked
        exact h ⟨mask, rfl, by simpa using hasked⟩
      unfold evaluate
      simp only [hmask, Bool.false_eq_true, if_false]

/-- Without Jacobians the residuals are all there is. -/
theorem fst_evaluate_none (f : Functions σ α) (parameters : List (Supplied α)) (machine : Machine)
    (w : World σ) : ((f.evaluate parameters none).perform machine w).1 =
      ((f.residuals parameters).perform machine w).1.map
        fun found => found.map fun xs => ⟨.vector xs, none⟩ := by
  unfold evaluate
  rw [Action.perform_bind]
  rcases (f.residuals parameters).perform machine w with ⟨fault | _ | xs, w₁⟩ <;> rfl

/-- With Jacobians the answer is chosen from the full one. -/
theorem fst_evaluate_some (f : Functions σ α) (parameters : List (Supplied α))
    (hmask : mask.any id = true) (machine : Machine) (w : World σ) :
    ((f.evaluate parameters (some mask)).perform machine w).1 =
      ((f.full parameters).perform machine w).1 >>= f.choose mask := by
  rw [f.evaluate_eq_full parameters hmask]
  exact Action.fst_perform_bind_ofExcept _ _ _ _

theorem choose_eq_ok_some_iff {found : Option (List α × List (Supplied α))} :
    f.choose mask found = .ok (some answer) ↔ ∃ xs full js, found = some (xs, full) ∧
      f.selectJacobians mask full = .ok js ∧ answer = ⟨.vector xs, some js⟩ := by
  rcases found with _ | ⟨xs, full⟩
  · simp [choose]
  · simp only [choose, Except.map_eq_ok_iff, Option.some.injEq, Prod.mk.injEq]
    constructor
    · rintro ⟨js, hjs, rfl⟩
      exact ⟨xs, full, js, ⟨rfl, rfl⟩, hjs, rfl⟩
    · rintro ⟨_, _, js, ⟨rfl, rfl⟩, hjs, rfl⟩
      exact ⟨js, hjs, rfl⟩

/-- There is an answer to choose from whenever there is one that was chosen. -/
theorem isSome_of_choose {found : Option (List α × List (Supplied α))}
    {chosen : Option (Answer α)} (h : f.choose mask found = .ok chosen) :
    chosen.isSome = found.isSome := by
  cases found with
  | none =>
      rw [← Except.ok.inj h]
      rfl
  | some full =>
      obtain ⟨js, -, rfl⟩ := Except.map_eq_ok_iff.1 h
      rfl

/-- An answer with Jacobians, taken apart. -/
theorem of_evaluate_some (hmask : mask.any id = true)
    (h : ((f.evaluate parameters (some mask)).perform machine w).1 = .ok (some answer)) :
    ∃ xs full js, ((f.full parameters).perform machine w).1 = .ok (some (xs, full)) ∧
      full.length = f.blockSizes.length ∧ f.selectJacobians mask full = .ok js ∧
      ((f.residuals parameters).perform machine w).1 = .ok (some xs) ∧
      answer = ⟨.vector xs, some js⟩ := by
  rw [fst_evaluate_some f parameters hmask] at h
  obtain ⟨found, hfull, hchoose⟩ := Except.bind_eq_ok_iff.1 h
  obtain ⟨xs, full, js, rfl, hjs, rfl⟩ := choose_eq_ok_some_iff.1 hchoose
  obtain ⟨w₁, hresiduals, hlen⟩ := of_full (eq_mk_of_fst hfull)
  exact ⟨xs, full, js, hfull, hlen, hjs, by rw [hresiduals], rfl⟩

/-- Residuals that are answered are usable. -/
theorem of_residuals {xs : List α}
    (h : ((f.residuals parameters).perform machine w).1 = .ok (some xs)) :
    (xs.length : ℤ) = f.numResiduals ∧ xs.all Scalar.isFinite = true := by
  obtain ⟨reply, w₁, -, h⟩ := Action.perform_bind_eq_ok_iff.1 (eq_mk_of_fst h)
  split at h
  · cases (Prod.mk.inj h).1
  · obtain ⟨entries, w₂, hread, h⟩ := Action.perform_bind_eq_ok_iff.1 h
    rw [Action.perform_ofExcept, Prod.mk.injEq] at hread
    split at h
    · rename_i hfinite
      rw [Action.perform_pure, Prod.mk.injEq, Except.ok.injEq, Option.some.injEq] at h
      obtain ⟨rfl, -⟩ := h
      exact ⟨length_of_readResiduals hread.1, hfinite⟩
    · cases (Prod.mk.inj h).1

/-- An answer shows the residuals that are shown where no Jacobians are requested. -/
theorem residuals_of_evaluate
    (h : ((f.evaluate parameters request).perform machine w).1 = .ok (some answer)) :
    ∃ xs, ((f.residuals parameters).perform machine w).1 = .ok (some xs) ∧
      answer.residuals = .vector xs ∧ (answer.jacobians = none ↔ ¬Asks request) := by
  by_cases hasks : Asks request
  · obtain ⟨mask, rfl, hmask⟩ := hasks
    obtain ⟨xs, full, js, -, -, -, hresiduals, rfl⟩ := of_evaluate_some hmask h
    exact ⟨xs, hresiduals, rfl, by simpa using ⟨mask, rfl, hmask⟩⟩
  · rw [evaluate_of_not_asks hasks, fst_evaluate_none] at h
    obtain ⟨found, hfound, hsome⟩ := Except.map_eq_ok_iff.1 h
    obtain ⟨xs, rfl, rfl⟩ := Option.map_eq_some_iff.1 hsome
    exact ⟨xs, hfound, rfl, by simpa using hasks⟩

/-- **Every answer conforms to its request.** -/
theorem conforms_of_evaluate (hrequest : ∀ mask ∈ request, mask.length = f.blockSizes.length)
    (h : ((f.evaluate parameters request).perform machine w).1 = .ok (some answer)) :
    f.Conforms request answer := by
  obtain ⟨xs, hresiduals, hxs, hnone⟩ := residuals_of_evaluate h
  have hasked : ∀ js ∈ answer.jacobians, Asks request := by
    intro js hjs
    by_contra hno
    rw [hnone.2 hno] at hjs
    cases hjs
  -- where there are Jacobians, they were chosen from a full answer
  have hchosen : ∀ mask ∈ request, ∀ js ∈ answer.jacobians, ∃ full : List (Supplied α),
      full.length = f.blockSizes.length ∧ f.selectJacobians mask full = .ok js := by
    rintro mask rfl js hjs
    obtain ⟨_, hmem, hmask⟩ := hasked js hjs
    obtain rfl := Option.some.inj hmem
    obtain ⟨_, full, js', -, hlen, hselect, -, rfl⟩ := of_evaluate_some hmask h
    obtain rfl := Option.some.inj hjs
    exact ⟨full, hlen, hselect⟩
  have hlength : ∀ mask ∈ request, ∀ js ∈ answer.jacobians, js.length = f.blockSizes.length := by
    intro mask hmask js hjs
    obtain ⟨full, hlen, hselect⟩ := hchosen mask hmask js hjs
    have hl := (Except.mapM_eq_ok_iff_getElem.1 hselect).1
    simp only [List.length_zipIdx, List.length_zip, hrequest mask hmask, hlen, Nat.min_self] at hl
    exact hl.symm
  have hentry : ∀ mask ∈ request, ∀ js ∈ answer.jacobians, ∀ k (hm : k < mask.length)
      (hk : k < js.length) (hs : k < f.blockSizes.length),
      if mask[k] then ∃ t name matrix, js[k] = .array t ∧
        readMatrix matrix (.whole f.numResiduals) (.whole f.blockSizes[k]) name = .ok t
      else js[k] = .nothing := by
    intro mask hmask js hjs k hm hk hs
    obtain ⟨full, hlen, hselect⟩ := hchosen mask hmask js hjs
    have hone := getElem_select hselect k hm hs (hlen ▸ hs) hk
    split at hone
    · rename_i hwanted
      obtain ⟨t, ht, hread⟩ := hone
      rw [if_pos hwanted]
      exact ⟨t, _, _, ht, hread⟩
    · rename_i hunwanted
      rwa [if_neg hunwanted]
  refine ⟨⟨xs, hxs, of_residuals hresiduals⟩, hnone, fun js hjs => ?_, ?_, ?_⟩
  · obtain ⟨mask, hmask, -⟩ := hasked js hjs
    exact hlength mask hmask js hjs
  · intro mask hmask js hjs k hm hk
    have hone := hentry mask hmask js hjs k hm hk (hlength mask hmask js hjs ▸ hk)
    cases hwanted : mask[k] with
    | false => simpa [hwanted] using hone
    | true =>
        obtain ⟨t, -, -, ht, -⟩ := by simpa only [hwanted, if_true] using hone
        simp [ht]
  · intro mask hmask js hjs k hm hk hs hwanted
    have hone := hentry mask hmask js hjs k hm hk hs
    obtain ⟨t, name, matrix, ht, hread⟩ := by simpa only [hwanted, if_true] using hone
    obtain ⟨m, n, hshape, hrows, hcols⟩ := shape_of_readMatrix hread
    exact ⟨t, m, n, ht, hshape, hrows, hcols⟩

/-! ### Values of a wrong kind -/

/-- A call of one of the functions ends with the fault, or hands over what cannot be read for this
reason. -/
def Causes (f : Functions σ α) (parameters : List (Supplied α)) (machine : Machine)
    (fault : Fault) : Prop :=
  ∃ w, ((f.function parameters).perform machine w).1 = .error fault ∨
    ((f.function parameters).perform machine w).1 = .ok (.unreadable fault) ∨
    ∃ jacobian, f.jacobian = some jacobian ∧
      (((jacobian parameters).perform machine w).1 = .error fault ∨
        ∃ full, ((jacobian parameters).perform machine w).1 = .ok (some full) ∧
          .unreadable fault ∈ full)

theorem causes_of_residuals (hf : fault.IsMistyped)
    (h : ((f.residuals parameters).perform machine w).1 = .error fault) :
    f.Causes parameters machine fault := by
  unfold residuals at h
  rw [Action.perform_bind] at h
  rcases hcall : (f.function parameters).perform machine w with ⟨cause | reply, w₁⟩ <;>
    rw [hcall] at h
  · obtain rfl := Except.error.inj h
    exact ⟨w, Or.inl (by rw [hcall])⟩
  · dsimp only at h
    split at h
    · cases h
    · rw [Action.perform_bind, Action.perform_ofExcept] at h
      cases hread : readResiduals reply (.whole f.numResiduals) with
      | error cause =>
          rw [hread] at h
          obtain rfl := Except.error.inj h
          rcases fault_of_readResiduals hread with rfl | ⟨_, rfl⟩
          · exact ⟨w, Or.inr (Or.inl (by rw [hcall]))⟩
          · cases hf
      | ok xs =>
          rw [hread] at h
          dsimp only at h
          split at h <;> cases h

theorem unreadable_of_select {full : List (Supplied α)} (hf : fault.IsMistyped)
    (h : f.selectJacobians mask full = .error fault) : .unreadable fault ∈ full := by
  obtain ⟨⟨⟨⟨wanted, size⟩, matrix⟩, k⟩, hp, h⟩ := Except.exists_of_mapM_eq_error h
  have hmem : matrix ∈ full := (List.of_mem_zip (List.fst_mem_of_mem_zipIdx hp)).2
  dsimp only at h
  split at h
  · rcases Except.bind_eq_error_iff.1 h with hread | ⟨_, -, h⟩
    · rcases fault_of_readMatrix hread with rfl | ⟨_, rfl⟩ | ⟨_, rfl⟩ | rfl
      · exact hmem
      · cases hf
      · cases hf
      · cases hf
    · cases h
  · cases h

theorem causes_of_jacobians (hf : fault.IsMistyped)
    (h : ((f.jacobians parameters mask).perform machine w).1 = .error fault) :
    (fault = .noJacobian ∧ f.jacobian = none) ∨ f.Causes parameters machine fault := by
  unfold jacobians at h
  cases hj : f.jacobian with
  | none =>
      rw [hj] at h
      exact Or.inl ⟨(Except.error.inj h).symm, rfl⟩
  | some jacobian =>
      right
      rw [hj] at h
      dsimp only at h
      rw [Action.perform_bind] at h
      rcases hcall : (jacobian parameters).perform machine w with ⟨cause | _ | full, w₁⟩ <;>
        rw [hcall] at h
      · obtain rfl := Except.error.inj h
        exact ⟨w, Or.inr (Or.inr ⟨jacobian, hj, Or.inl (by rw [hcall])⟩)⟩
      · cases h
      · dsimp only at h
        split at h
        · rw [Action.perform_bind, Action.perform_ofExcept] at h
          cases hselect : f.selectJacobians mask full with
          | error cause =>
              rw [hselect] at h
              obtain rfl := Except.error.inj h
              exact ⟨w, Or.inr (Or.inr ⟨jacobian, hj, Or.inr
                ⟨full, by rw [hcall], unreadable_of_select hf hselect⟩⟩)⟩
          | ok js =>
              rw [hselect] at h
              cases h
        · obtain rfl := Except.error.inj h
          cases hf

/-- An evaluation ends because of a value of a wrong kind for two reasons only: there is no Jacobian
function, or a function is the cause itself. -/
theorem fault_of_evaluate (hf : fault.IsMistyped)
    (h : ((f.evaluate parameters request).perform machine w).1 = .error fault) :
    (fault = .noJacobian ∧ f.jacobian = none ∧ Asks request ∧ f.HasValue machine w parameters) ∨
      f.Causes parameters machine fault := by
  unfold evaluate at h
  rw [Action.perform_bind] at h
  rcases hresiduals : (f.residuals parameters).perform machine w with ⟨cause | _ | xs, w₁⟩ <;>
    rw [hresiduals] at h
  · obtain rfl := Except.error.inj h
    exact Or.inr (causes_of_residuals hf (congrArg Prod.fst hresiduals))
  · cases h
  · have hvalue : f.HasValue machine w parameters := hasValue_iff.2 ⟨xs, w₁, hresiduals⟩
    cases request with
    | none => cases h
    | some mask =>
        dsimp only at h
        split at h
        · rename_i hmask
          rw [Action.perform_bind] at h
          rcases hj : (f.jacobians parameters mask).perform machine w₁ with ⟨cause | _ | js, w₂⟩ <;>
            rw [hj] at h
          · obtain rfl := Except.error.inj h
            rcases causes_of_jacobians hf (congrArg Prod.fst hj) with ⟨hfault, hnone⟩ | hcause
            · exact Or.inl ⟨hfault, hnone, ⟨mask, rfl, hmask⟩, hvalue⟩
            · exact Or.inr hcause
          · cases h
          · cases h
        · cases h

/-- Without a Jacobian function there is no answer that could show Jacobians. -/
theorem evaluate_of_no_jacobian (hj : f.jacobian = none) (hasks : Asks request)
    (hvalue : f.HasValue machine w parameters) :
    ((f.evaluate parameters request).perform machine w).1 = .error .noJacobian := by
  obtain ⟨mask, rfl, hmask⟩ := hasks
  obtain ⟨xs, w₁, hresiduals⟩ := hasValue_iff.1 hvalue
  unfold evaluate
  rw [Action.perform_bind_of_ok hresiduals]
  simp only [hmask, if_true]
  unfold jacobians
  rw [hj]
  rfl

/-! ### All requests at one point -/

/-- What the answers to different requests at one point have in common, from whatever worlds they
are given. -/
structure Consistent (f : Functions σ α) (parameters : List (Supplied α)) (machine : Machine) :
    Prop where
  /-- Every answer conforms to its request. -/
  conforms : ∀ request answer w, (∀ mask ∈ request, mask.length = f.blockSizes.length) →
    ((f.evaluate parameters request).perform machine w).1 = .ok (some answer) →
    f.Conforms request answer
  /-- If there is an answer to any request, there is one without Jacobians, and it shows the same
  residuals. -/
  residuals : ∀ request answer w w',
    ((f.evaluate parameters request).perform machine w).1 = .ok (some answer) →
    ((f.evaluate parameters none).perform machine w').1 = .ok (some ⟨answer.residuals, none⟩)
  /-- Each Jacobian that is shown is the one that is shown if all are requested. -/
  everything : ∀ mask answer whole w w', mask.length = f.blockSizes.length →
    mask.any id = true →
    ((f.evaluate parameters (some mask)).perform machine w).1 = .ok (some answer) →
    ((f.evaluate parameters (some (f.blockSizes.map fun _ => true))).perform machine w').1 =
      .ok (some whole) →
    ∀ k, mask[k]? = some true → answer.jacobianAt k = whole.jacobianAt k
  /-- Whether there is an answer does not depend on which Jacobians are requested. -/
  success : ∀ mask mask' found found' w w', mask.any id = true → mask'.any id = true →
    ((f.evaluate parameters (some mask)).perform machine w).1 = .ok found →
    ((f.evaluate parameters (some mask')).perform machine w').1 = .ok found' →
    found.isSome = found'.isSome
  /-- A Jacobian function is missed where Jacobians are requested and the residuals are usable. -/
  missing : ∀ request w, f.jacobian = none → Asks request → f.HasValue machine w parameters →
    ((f.evaluate parameters request).perform machine w).1 = .error .noJacobian
  /-- Nothing else is of a wrong kind, unless a function is the cause. -/
  mistyped : ∀ request w fault, fault.IsMistyped → ¬f.Causes parameters machine fault →
    (((f.evaluate parameters request).perform machine w).1 = .error fault ↔
      fault = .noJacobian ∧ f.jacobian = none ∧ Asks request ∧ f.HasValue machine w parameters)

/-- A Jacobian that two masks request is chosen for both alike. -/
theorem getElem?_select_eq {mask' : List Bool} {full js js' : List (Supplied α)}
    (hmask : mask.length = f.blockSizes.length) (hmask' : mask'.length = f.blockSizes.length)
    (hfull : full.length = f.blockSizes.length) (h : f.selectJacobians mask full = .ok js)
    (h' : f.selectJacobians mask' full = .ok js') {k : ℕ} (hk : mask[k]? = some true)
    (hk' : mask'[k]? = some true) : js[k]? = js'[k]? := by
  obtain ⟨hm, hwanted⟩ := List.getElem?_eq_some_iff.1 hk
  obtain ⟨hm', hwanted'⟩ := List.getElem?_eq_some_iff.1 hk'
  have hl := (Except.mapM_eq_ok_iff_getElem.1 h).1
  have hl' := (Except.mapM_eq_ok_iff_getElem.1 h').1
  simp only [List.length_zipIdx, List.length_zip] at hl hl'
  have hc : k < js.length := by omega
  have hc' : k < js'.length := by omega
  have hone := getElem_select h k hm (hmask ▸ hm) (by omega) hc
  have hother := getElem_select h' k hm' (hmask ▸ hm) (by omega) hc'
  rw [if_pos hwanted] at hone
  rw [if_pos hwanted'] at hother
  obtain ⟨t, ht, hread⟩ := hone
  obtain ⟨t', ht', hread'⟩ := hother
  obtain rfl := Except.ok.inj (hread.symm.trans hread')
  rw [List.getElem?_eq_getElem hc, List.getElem?_eq_getElem hc', ht, ht']

/-- **What is requested decides only what is shown**: functions whose answers do not depend on the
world answer all requests at a point alike. -/
theorem evaluate_consistent (f : Functions σ α) (hf : f.Has fun _ a => a.Deterministic)
    (parameters : List (Supplied α)) (machine : Machine) : f.Consistent parameters machine where
  conforms _ _ _ hrequest h := conforms_of_evaluate hrequest h
  residuals := by
    intro request answer w w' h
    obtain ⟨xs, hresiduals, hxs, -⟩ := residuals_of_evaluate h
    have hsame := residuals_inherits Action.inherited_deterministic hf parameters machine w' w
    rw [fst_evaluate_none, hsame, hresiduals, hxs]
    rfl
  everything := by
    intro mask answer whole w w' hlen hmask h h' k hk
    have hm : k < mask.length := (List.getElem?_eq_some_iff.1 hk).1
    have hall : (f.blockSizes.map fun _ => true)[k]? = some true := by
      rw [List.getElem?_map, List.getElem?_eq_getElem (hlen ▸ hm), Option.map_some]
    have hany : (f.blockSizes.map fun _ => true).any id = true :=
      List.any_eq_true.2 ⟨true, List.mem_of_getElem? hall, rfl⟩
    obtain ⟨xs, full, js, hfull, hl, hjs, -, rfl⟩ := of_evaluate_some hmask h
    obtain ⟨xs', full', js', hfull', -, hjs', -, rfl⟩ := of_evaluate_some hany h'
    -- both are chosen from the same full answer
    rw [full_deterministic hf parameters machine w' w, hfull] at hfull'
    obtain ⟨rfl, rfl⟩ := Prod.mk.inj (Option.some.inj (Except.ok.inj hfull'))
    exact getElem?_select_eq hlen (List.length_map _) hl hjs hjs' hk hall
  success := by
    intro mask mask' found found' w w' hmask hmask' h h'
    rw [fst_evaluate_some f parameters hmask] at h
    rw [fst_evaluate_some f parameters hmask', full_deterministic hf parameters machine w' w] at h'
    obtain ⟨full, hfull, hchoose⟩ := Except.bind_eq_ok_iff.1 h
    obtain ⟨full', hfull', hchoose'⟩ := Except.bind_eq_ok_iff.1 h'
    obtain rfl := Except.ok.inj (hfull.symm.trans hfull')
    rw [isSome_of_choose hchoose, isSome_of_choose hchoose']
  missing _ _ hj hasks hvalue := evaluate_of_no_jacobian hj hasks hvalue
  mistyped := by
    intro request w fault hmistyped hcause
    constructor
    · intro h
      exact (fault_of_evaluate hmistyped h).resolve_right hcause
    · rintro ⟨rfl, hj, hasks, hvalue⟩
      exact evaluate_of_no_jacobian hj hasks hvalue

/-- The functions whose Jacobian is wrong along `x₁` show the same first Jacobian, alone and among
all. -/
theorem evaluate_consistent_slanted :
    (slanted.Has fun _ a => a.Deterministic) ∧
      slanted.Consistent (slantedBlocks.map .vector) plainMachine ∧
      ∃ answer whole,
        ((slanted.evaluate (slantedBlocks.map .vector) (some [true, false])).perform plainMachine
          ⟨(), [], []⟩).1 = .ok (some answer) ∧
        ((slanted.evaluate (slantedBlocks.map .vector) (some [true, true])).perform plainMachine
          ⟨(), [], []⟩).1 = .ok (some whole) ∧
        slanted.Conforms (some [true, false]) answer ∧
        answer.jacobianAt 0 = whole.jacobianAt 0 := by
  have hconsistent := evaluate_consistent slanted slanted_deterministic
    (slantedBlocks.map .vector) plainMachine
  have hone : ((slanted.evaluate (slantedBlocks.map .vector) (some [true, false])).perform
      plainMachine ⟨(), [], []⟩).1.map Option.isSome = .ok true := by decide +kernel
  have hall : ((slanted.evaluate (slantedBlocks.map .vector) (some [true, true])).perform
      plainMachine ⟨(), [], []⟩).1.map Option.isSome = .ok true := by decide +kernel
  obtain ⟨_ | answer, h, hsome⟩ := Except.map_eq_ok_iff.1 hone
  · cases hsome
  obtain ⟨_ | whole, h', hsome'⟩ := Except.map_eq_ok_iff.1 hall
  · cases hsome'
  refine ⟨slanted_deterministic, hconsistent, answer, whole, h, h', ?_, ?_⟩
  · exact hconsistent.conforms (some [true, false]) answer _ (by simp [slanted]) h
  · exact hconsistent.everything [true, false] answer whole _ _ rfl rfl h h' 0 rfl

end Functions

end JacobianAudit
