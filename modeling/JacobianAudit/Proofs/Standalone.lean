/-
**A record is made of operations that can be called on their own.**

A probe takes shortcuts. Its forward differences start from the residuals that came with the
Jacobians, a block without a manifold is differentiated once for two matrices, and what the
evaluator answered is read only once. For an evaluator that is put together from deterministic
functions none of this can be told from the record: every matrix in it is what the evaluator, the
projection or the numeric differentiation answers when it is called by itself with the parameters
that the probe was given, and the worst error is the largest of the errors between these matrices.

Manifolds may keep a state, as long as the functions do not touch what the manifolds can see of it.
Where a manifold is involved, the call is then made in a state that looks to the manifolds as it did
when the probe got to the block.

Main definitions:

* `JacobianAudit.Checker.Reaches` — the probe gets as far as a block;
* `JacobianAudit.Checker.Standalone` — the matrices of a block are what is answered to calls of
  their own.

Main results:

* `JacobianAudit.Checker.compared_of_completes` — a probe that completes and answers has compared;
* `JacobianAudit.Checker.fst_estimate_eq` — a numeric Jacobian does not depend on whether the
  residuals at the point are given;
* `JacobianAudit.Checker.record_standalone` — **the record of a completed probe**.
-/

import JacobianAudit.Proofs.Maxima
import JacobianAudit.Proofs.Requests
import JacobianAudit.Proofs.Threads
import JacobianAudit.Proofs.Thresholds

set_option autoImplicit false

namespace JacobianAudit

variable {σ τ α : Type} [Scalar α]

/-! ### Residuals with and without Jacobians -/

namespace Checker

variable {c : Checker σ α} {f : Functions σ α} {view : σ → τ} {machine : Machine}
  {w w' w₁ w₂ : World σ} {blocks : List (List α)} {residuals : List α} {k : ℕ}
  {parameters : List (Supplied α)} {tolerance : α}

/-- The residuals that were read with the Jacobians are those that are answered alone. -/
theorem residualsOnly_of_read (hf : f.Has fun _ a => a.Deterministic)
    (he : c.evaluator = f.toEvaluator) {reading : Reading α}
    (h : (c.read blocks).perform machine w = (.ok (some reading), w₁)) (v : World σ) :
    ((residualsOnly c.evaluator (blocks.map .vector)).perform machine v).1 =
      .ok reading.residuals := by
  obtain ⟨answer, _, hanswer, hresiduals, -⟩ := of_read h
  rw [he] at hanswer hresiduals ⊢
  have hcall : ((f.evaluate (blocks.map .vector) (some (blocks.map fun _ => true))).perform
      machine w).1 = .ok (some answer) := congrArg Prod.fst hanswer
  obtain ⟨xs, hfound, hxs, -⟩ := Functions.residuals_of_evaluate hcall
  have hdeterministic := Functions.residuals_inherits Action.inherited_deterministic hf
    (blocks.map .vector) machine v w
  have hevaluate : ((f.toEvaluator.evaluate (blocks.map .vector) none).perform machine v).1 =
      .ok (some ⟨.vector xs, none⟩) :=
    (f.fst_evaluate_none _ _ _).trans (by rw [hdeterministic, hfound]; rfl)
  unfold residualsOnly
  rw [Action.perform_bind_of_ok (eq_mk_of_fst hevaluate)]
  simp only [Action.perform_ofExcept]
  rwa [hxs] at hresiduals

/-! ### Differentiating without the residuals at the point -/

/-- One machine, and states that look the same to the manifolds. -/
def seenAlikeOn (machine : Machine) (view : σ → τ) : Coupling σ :=
  ⟨fun a b => a = machine ∧ b = machine, SeenAlike view⟩

/-- What does the same from states that look the same is steady on one machine. -/
theorem steady_of_respects {β : Type} {a : Action σ β} (h : a.Respects (SeenAlike view)) :
    a.Steady (seenAlikeOn machine view) β := by
  rintro _ _ w w' ⟨rfl, rfl⟩ hw
  obtain ⟨hanswer, hstate⟩ := h _ w w' hw
  exact ⟨hanswer ▸ .rfl, hstate⟩

/-- Whatever the evaluator does to answer with residuals, the manifolds do not see it. -/
theorem Separated.residualsOnly_unseen (hc : c.Separated view) (blocks : List (List α)) :
    (residualsOnly c.evaluator (blocks.map .vector)).Moves (SeenAlike view) := by
  have hP := Action.inherited_moves (r := SeenAlike view) (fun _ => rfl)
    fun _ _ _ h h' => h.trans h'
  refine hP.bind (hc.unseen _ _) fun answer => ?_
  cases answer with
  | none => exact hP.throw _
  | some answer => exact hP.ofExcept _

/-- **A numeric Jacobian does not depend on whether the residuals at the point are given.** The call
with the residuals is the one that a probe makes. -/
theorem fst_estimate_eq (hc : c.Separated view) {manifold : Option (Manifold σ α)}
    (hm : ∀ m ∈ manifold, m.Has fun _ a => a.Respects (SeenAlike view))
    (hb : readBlocks parameters c.evaluator.blockSizes = .ok blocks)
    (hgiven : readResiduals (.vector residuals) c.evaluator.numResiduals = .ok residuals)
    (hstart : ∀ v, ((residualsOnly c.evaluator (blocks.map .vector)).perform machine v).1 =
      .ok residuals) (k : ℕ) (hw : SeenAlike view w.shared w'.shared) :
    ((estimate c.evaluator parameters (.count k) manifold c.options none).perform machine w').1 =
      ((c.along blocks residuals k manifold).perform machine w).1 := by
  let p : Coupling σ := seenAlikeOn machine view
  have he : c.evaluator.SameResiduals p c.evaluator :=
    .of_steady fun parameters request => steady_of_respects (hc.respects parameters request)
  have hm : ∀ m ∈ manifold, m.Has (Action.Steady p) := fun m hmem =>
    ⟨fun x d => steady_of_respects ((hm m hmem).1 x d),
      fun x => steady_of_respects ((hm m hmem).2 x)⟩
  have hruns : p.SameRuns c.options.workers c.options.workers :=
    Coupling.sameRuns_of_eq (fun a b (h : a = machine ∧ b = machine) => h.1.trans h.2.symm) _
  have hblocks : readBlocks (blocks.map .vector) c.evaluator.blockSizes =
      readBlocks parameters c.evaluator.blockSizes := (readBlocks_again hb).trans hb.symm
  have hbase : ∀ blocks', readBlocks parameters c.evaluator.blockSizes = .ok blocks' →
      (baseResiduals c.evaluator blocks' c.options (some (.vector residuals))).Coupled p Eq
        (baseResiduals c.evaluator blocks' c.options none) := by
    intro blocks' hb'
    obtain rfl : blocks = blocks' := Except.ok.inj (hb.symm.trans hb')
    unfold baseResiduals
    cases c.options.scheme with
    | forward =>
        simp only [hgiven]
        rintro _ _ v v' ⟨rfl, rfl⟩ hv
        rw [Action.perform_ofExcept, hstart]
        exact ⟨.rfl, hv.trans (hc.residualsOnly_unseen blocks _ v')⟩
    | _ => exact .pure rfl
  exact (estimate_coupled_of_base he hm .rfl hruns hblocks hbase (.count k) machine machine w w'
    ⟨rfl, rfl⟩ hw).1.eq.symm

/-! ### The blocks one by one -/

/-- The probe gets as far as a block: the point has been read, and the blocks before have been
projected and differentiated. -/
def Reaches (c : Checker σ α) (machine : Machine) (w : World σ) (blocks : List (List α)) (k : ℕ)
    (u : World σ) : Prop :=
  ∃ reading w₁ ms, (c.read blocks).perform machine w = (.ok (some reading), w₁) ∧
    c.Differentiates machine blocks reading.residuals true
      ((c.tasks blocks reading.jacobians).take k) w₁ ms u

/-- What is done about one block of a run over the blocks, after the blocks before. Induction on the
run. -/
theorem Differentiates.at_block {recording : Bool}
    {todo : List (ℕ × BlockSpace σ α × List α × Tensor α)} {ms : List (BlockMatrices α)}
    (h : c.Differentiates machine blocks residuals recording todo w ms w') {i : ℕ}
    {space : BlockSpace σ α} {block : List α} {jacobian : Tensor α}
    (ht : todo[k]? = some (i, space, block, jacobian)) :
    ∃ m before u u₁ u₂, ms[k]? = some m ∧
      c.Differentiates machine blocks residuals recording (todo.take k) w before u ∧
      (project (.array jacobian) space.manifold (.vector block)).perform machine u =
        (.ok m.tangent, u₁) ∧
      (c.numeric blocks residuals recording i space).perform machine u₁ =
        (.ok (m.numericTangent, m.numericAmbient), u₂) := by
  induction h generalizing k with
  | nil => cases ht
  | @cons _ _ _ _ _ _ w₁ w₂ _ m _ hp hn _ ih =>
      cases k with
      | zero =>
          cases ht
          exact ⟨m, [], _, w₁, w₂, rfl, .nil, hp, hn⟩
      | succ k =>
          obtain ⟨m', before, u, u₁, u₂, hm, hbefore, hp', hn'⟩ := ih ht
          exact ⟨m', m :: before, u, u₁, u₂, hm, .cons hp hn hbefore, hp', hn'⟩

/-- Where each item gives a single result, the results stand like the items. -/
theorem getElem?_flatMap_singleton {β γ : Type} {g : β → List γ} {xs : List β}
    (h : ∀ x ∈ xs, ∃ y, g x = [y]) :
    (xs.flatMap g).length = xs.length ∧
      ∀ (k : ℕ) (x : β) (y : γ), xs[k]? = some x → g x = [y] → (xs.flatMap g)[k]? = some y := by
  induction xs with
  | nil => exact ⟨rfl, nofun⟩
  | cons x xs ih =>
      obtain ⟨y, hy⟩ := h x List.mem_cons_self
      obtain ⟨hl, hitem⟩ := ih fun z hz => h z (List.mem_cons_of_mem x hz)
      rw [List.flatMap_cons, hy]
      refine ⟨by simp [hl], fun k z y' hz hy' => ?_⟩
      cases k with
      | zero =>
          obtain rfl := Option.some.inj hz
          rw [hy] at hy'
          exact congrArg some (List.singleton_inj.1 hy')
      | succ k => exact hitem k z y' hz hy'

/-- A probe that completes and answers has compared. -/
theorem compared_of_completes [OrderedScalar α] {ending : Ending α} {verdict : Bool}
    (hat : (c.runAt blocks tolerance true).perform machine w = (.ok ending, w'))
    (hv : ending.verdict tolerance = .ok verdict)
    (hb : readBlocks parameters c.sizes = .ok blocks)
    (hcompletes : c.Completes machine w parameters) :
    ∃ reading ms comparisons w₁ w₂, (c.read blocks).perform machine w = (.ok (some reading), w₁) ∧
      c.Differentiates machine blocks reading.residuals true (c.tasks blocks reading.jacobians) w₁
        ms w₂ ∧
      compare (Progress.extend {} ms) tolerance = .ok comparisons ∧
      ending = .compared reading (Progress.extend {} ms) comparisons := by
  obtain ⟨blocks', reading, w₁, ms, w₂, hb', hread, hms⟩ := hcompletes
  obtain rfl : blocks = blocks' := Except.ok.inj (hb.symm.trans hb')
  have hsurvey : ((c.survey blocks true).perform machine w).1 =
      .ok (.complete reading (Progress.extend {} ms)) :=
    survey_eq_complete_iff.2 ⟨w₁, ms, w₂, hread, hms, rfl⟩
  have hending := c.fst_perform_runAt machine w blocks tolerance true
  rw [hat, hsurvey] at hending
  obtain rfl := Except.ok.inj hending
  cases hc : compare (Progress.extend {} ms) tolerance with
  | error fault =>
      -- a probe that cannot compare does not answer
      simp only [Survey.ending, hc] at hv
      obtain ⟨-, cause, rfl⟩ := evaluation_of_verdict hv
      obtain ⟨cause', hfault⟩ := fault_of_compare (sameErrors_of_complete hsurvey) hc
      cases hfault
  | ok comparisons =>
      exact ⟨reading, ms, comparisons, w₁, w₂, hread, hms, hc, by simp only [Survey.ending, hc]⟩

/-- The matrices of a block are what is answered to calls of their own, made in a state that looks
to the manifolds as it did at that stage of the probe. -/
structure Standalone (f : Functions σ α) (view : σ → τ) (machine : Machine)
    (parameters : List (Supplied α)) (k : ℕ) (manifold : Option (Manifold σ α))
    (options : DiffOptions α) (block : List α) (u : World σ) (ambient numericAmbient tangent
    numericTangent : Tensor α) : Prop where
  tangent : ∀ v, SeenAlike view u.shared v.shared →
    ((project (.array ambient) manifold (.vector block)).perform machine v).1 = .ok tangent
  numericTangent : ∀ v, SeenAlike view
      ((project (.array ambient) manifold (.vector block)).perform machine u).2.shared v.shared →
    ((estimate f.toEvaluator parameters (.count k) manifold options none).perform machine v).1 =
      .ok numericTangent
  numericAmbient : ∀ v,
    ((estimate f.toEvaluator parameters (.count k) none options none).perform machine v).1 =
      .ok numericAmbient

/-- A checker that was accepted keeps apart what its functions and its manifolds do. -/
theorem separated_of_make {manifolds : Option (List (Option (Manifold σ α)))}
    {options : DiffOptions α} {cap : Setting}
    (hmake : make f.toEvaluator manifolds options cap = .ok c)
    (hf : f.Has fun _ a => a.Deterministic) (hunseen : f.Has fun _ a => a.Moves (SeenAlike view))
    (hm : ∀ k, ∀ m ∈ BlockSpace.givenAt manifolds k,
      m.Has fun _ a => a.Respects (SeenAlike view)) : c.Separated view := by
  obtain ⟨he, -⟩ := of_make hmake
  refine ⟨?_, ?_, fun space hspace m hmem => ?_⟩
  · rw [he]
    exact Functions.evaluate_inherits Action.inherited_deterministic hf
  · rw [he]
    exact Functions.evaluate_inherits (Action.inherited_moves (r := SeenAlike view) (fun _ => rfl)
      fun _ _ _ h h' => h.trans h') hunseen
  · obtain ⟨k, hk⟩ := List.getElem?_of_mem hspace
    rw [manifold_of_make hmake hk] at hmem
    exact hm k m hmem

/-- What a run over the blocks finds for one of them. -/
theorem standalone_of_differentiates (hf : f.Has fun _ a => a.Deterministic)
    (he : c.evaluator = f.toEvaluator) (hc : c.Separated view)
    (hb : readBlocks parameters c.evaluator.blockSizes = .ok blocks) {reading : Reading α}
    (hread : (c.read blocks).perform machine w = (.ok (some reading), w₁))
    {ms : List (BlockMatrices α)}
    (hms : c.Differentiates machine blocks reading.residuals true
      (c.tasks blocks reading.jacobians) w₁ ms w₂) {space : BlockSpace σ α} {block : List α}
    {ambient : Tensor α} (hspace : c.spaces[k]? = some space) (hblock : blocks[k]? = some block)
    (hambient : reading.jacobians[k]? = some ambient) :
    ∃ m numericAmbient u, ms[k]? = some m ∧ m.numericAmbient = [numericAmbient] ∧
      c.Reaches machine w blocks k u ∧
      Standalone f view machine parameters k space.manifold c.options block u ambient
        numericAmbient m.tangent m.numericTangent := by
  obtain ⟨m, before, u, u₁, u₂, hm, hbefore, hproject, hnumeric⟩ :=
    hms.at_block (getElem?_tasks_iff.2 ⟨rfl, hspace, hblock, hambient⟩)
  obtain ⟨_, htangent, -⟩ := of_numeric_recording hnumeric
  obtain ⟨numericAmbient, u₃, hsingle, hentries⟩ := ambient_of_numeric_recording hnumeric
  have hmem : space ∈ c.spaces := List.mem_of_getElem? hspace
  obtain ⟨answer, _, -, hresiduals, -⟩ := of_read hread
  -- the call with the residuals at the point answers like the call without
  have hsame : ∀ manifold : Option (Manifold σ α),
      (∀ m ∈ manifold, m.Has fun _ a => a.Respects (SeenAlike view)) →
      ∀ v v', SeenAlike view v.shared v'.shared →
        ((estimate c.evaluator parameters (.count k) manifold c.options none).perform machine
          v').1 = ((c.along blocks reading.residuals k manifold).perform machine v).1 :=
    fun _ hmanifold _ _ hv => fst_estimate_eq hc hmanifold hb (readResiduals_again hresiduals)
      (residualsOnly_of_read hf he hread) k hv
  rw [he] at hsame
  refine ⟨m, numericAmbient, u, hm, hsingle, ⟨reading, w₁, before, hread, hbefore⟩, ?_, ?_, ?_⟩
  · intro v hv
    rw [← (hc.project_respects hmem _ _ machine u v hv).1, hproject]
  · intro v hv
    rw [hproject] at hv
    rw [hsame _ (hc.manifolds space hmem) _ v hv, htangent]
  · intro v
    rw [hsame none (fun m hm => absurd hm (Option.not_mem_none m)) v v rfl,
      hc.along_deterministic machine v u₃, hentries]

/-- **The record of a completed probe is made of operations that can be called on their own.** Let
the evaluator be put together from deterministic functions that do not touch what the manifolds see.
If a probe with a record answers after all blocks could be differentiated, the record holds one
matrix of each kind for each block: the Jacobian that the evaluator answers, whatever else is
requested; its projection; and the numeric Jacobians along the tangent coordinates and along the
entries, as numeric differentiation answers them if it is called with the parameters of the probe
and without residuals. The worst error is the largest of all errors between the projections and the
numeric Jacobians along the tangent coordinates, where a block without entries counts as zero. -/
theorem record_standalone [OrderedScalar α] (f : Functions σ α) (view : σ → τ)
    (hf : f.Has fun _ a => a.Deterministic) (hunseen : f.Has fun _ a => a.Moves (SeenAlike view))
    (manifolds : Option (List (Option (Manifold σ α))))
    (hm : ∀ k, ∀ m ∈ BlockSpace.givenAt manifolds k, m.Has fun _ a => a.Respects (SeenAlike view))
    (options : DiffOptions α) (cap : Setting) (c : Checker σ α)
    (hmake : make f.toEvaluator manifolds options cap = .ok c) (machine : Machine) (w w' : World σ)
    (parameters : List (Supplied α)) (tolerance : α) (before record : Record α) (verdict : Bool)
    (hinto : (c.probeInto parameters tolerance before).perform machine w =
      (.ok (.ok verdict, record), w'))
    (hcompletes : c.Completes machine w parameters) :
    ∃ blocks, readBlocks parameters f.toEvaluator.blockSizes = .ok blocks ∧
      (∀ mask : List Bool, mask.any id = true → ∀ v,
        ((f.evaluate (blocks.map .vector) (some mask)).perform machine v).1 =
          .ok (some ⟨.array record.residuals, some (Monitor.requested mask record.ambient)⟩)) ∧
      (record.ambient.length = blocks.length ∧ record.numericAmbient.length = blocks.length ∧
        record.tangent.length = blocks.length ∧ record.numericTangent.length = blocks.length) ∧
      (∀ k block, blocks[k]? = some block → ∃ ambient numericAmbient tangent numericTangent u,
        record.ambient[k]? = some ambient ∧ record.numericAmbient[k]? = some numericAmbient ∧
        record.tangent[k]? = some tangent ∧ record.numericTangent[k]? = some numericTangent ∧
        c.Reaches machine w blocks k u ∧
        Standalone f view machine parameters k (BlockSpace.givenAt manifolds k) options block u
          ambient numericAmbient tangent numericTangent) ∧
      ∃ errors, (record.tangent.zip record.numericTangent).mapM (fun p => blockErrors p.1 p.2) =
          .ok errors ∧
        Scalar.IsLargest errors.flatten record.worst := by
  obtain ⟨he, rfl, ⟨sizes, hreadSizes, hsizes⟩, -⟩ := of_make hmake
  obtain ⟨rfl, hne⟩ := readSizes_whole hreadSizes
  have hc := separated_of_make hmake hf hunseen hm
  obtain ⟨ending, hrun, hv, rfl⟩ := perform_probeInto_iff.1 hinto
  obtain ⟨-, blocks, hb, hat⟩ := runAt_of_verdict hrun hv
  obtain ⟨reading, ms, comparisons, w₁, w₂, hread, hms, hcompare, rfl⟩ :=
    compared_of_completes hat hv hb hcompletes
  have hbe : readBlocks parameters c.evaluator.blockSizes = .ok blocks := by
    rw [he, ← hb, hsizes]
    rfl
  -- there are as many matrices of each kind as there are blocks
  have hcount : blocks.length = f.blockSizes.length := by
    rw [length_of_readBlocks hb, hsizes, List.length_map]
  have hspaces : blocks.length = c.spaces.length := by
    rw [length_of_readBlocks hb, Checker.sizes, List.length_map]
  have hjacobians : reading.jacobians.length = c.spaces.length := length_of_read hspaces hread
  have hlength : ms.length = blocks.length := by
    rw [hms.length_eq, c.length_tasks hspaces hjacobians, hspaces]
  have hblock : ∀ k block, blocks[k]? = some block → ∃ space ambient m numericAmbient u,
      c.spaces[k]? = some space ∧ reading.jacobians[k]? = some ambient ∧ ms[k]? = some m ∧
        m.numericAmbient = [numericAmbient] ∧ c.Reaches machine w blocks k u ∧
        Standalone f view machine parameters k space.manifold c.options block u ambient
          numericAmbient m.tangent m.numericTangent := by
    intro k block hk
    obtain ⟨hlt, -⟩ := List.getElem?_eq_some_iff.1 hk
    have hspace := List.getElem?_eq_getElem (hspaces ▸ hlt)
    have hjacobian := List.getElem?_eq_getElem (hjacobians ▸ hspaces ▸ hlt)
    obtain ⟨m, numericAmbient, u, h⟩ :=
      standalone_of_differentiates hf he hc hbe hread hms hspace hk hjacobian
    exact ⟨_, _, m, numericAmbient, u, hspace, hjacobian, h⟩
  have hsingle : ∀ m ∈ ms, ∃ t, m.numericAmbient = [t] := by
    intro m hm
    obtain ⟨k, hlt, rfl⟩ := List.getElem_of_mem hm
    obtain ⟨_, _, m', t, _, -, -, hm', ht, -⟩ :=
      hblock k _ (List.getElem?_eq_getElem (hlength ▸ hlt))
    obtain ⟨_, rfl⟩ := List.getElem?_eq_some_iff.1 hm'
    exact ⟨t, ht⟩
  obtain ⟨hflat, hitem⟩ := getElem?_flatMap_singleton hsingle
  refine ⟨blocks, hbe.symm ▸ he ▸ rfl, ?_, ?_, ?_, ?_⟩
  · intro mask hmask v
    have hcalled : ∀ asked : List Bool, asked.any id = true →
        ((c.evaluator.evaluate (blocks.map .vector) (some asked)).perform machine w).1 =
          ((f.full (blocks.map .vector)).perform machine w).1 >>= f.choose asked := by
      intro asked hasked
      rw [he]
      show ((f.evaluate (blocks.map .vector) (some asked)).perform machine w).1 = _
      rw [f.evaluate_eq_full _ hasked]
      exact Action.fst_perform_bind_ofExcept _ _ _ _
    exact f.evaluate_of_read hf hcalled (congrArg Evaluator.numResiduals he) hsizes hne hcount
      (congrArg Prod.fst hread) hmask v
  · refine ⟨hjacobians.trans hspaces.symm, ?_, ?_, ?_⟩
    · exact hflat.trans hlength
    · exact (List.length_map _).trans hlength
    · exact (List.length_map _).trans hlength
  · intro k block hk
    obtain ⟨space, ambient, m, numericAmbient, u, hspace, hambient, hm, ht, hreaches, h⟩ :=
      hblock k block hk
    rw [manifold_of_make hmake hspace] at h
    refine ⟨ambient, numericAmbient, m.tangent, m.numericTangent, u, hambient, ?_, ?_, ?_,
      hreaches, h⟩
    · exact hitem k m numericAmbient hm ht
    · exact (List.getElem?_map ..).trans (congrArg (Option.map _) hm)
    · exact (List.getElem?_map ..).trans (congrArg (Option.map _) hm)
  · refine isLargest_of_compare hcompare ?_
    rintro rfl
    have hnone : ms = [] := by
      simpa [Progress.extend] using (Except.mapM_eq_ok_iff.1 hcompare).length_eq
    rw [← hlength, hnone] at hcount
    exact hne (List.eq_nil_of_length_eq_zero hcount.symm)

end Checker

theorem record_standalone_slanted :
    Checker.make slanted.toEvaluator (some [some (.subset secondConstant), none])
        DiffOptions.standard (.whole 10) = .ok slantedChecker ∧
      slantedChecker.Completes plainMachine ⟨(), [], []⟩ slantedPoint ∧
      ∃ record w', (slantedChecker.probeInto slantedPoint 1e-9 Record.blank).perform plainMachine
          ⟨(), [], []⟩ = (.ok (.ok true, record), w') ∧
        ∃ numeric, record.numericTangent[0]? = some numeric ∧ ∀ v,
          ((estimate slanted.toEvaluator slantedPoint (.count 0) (some (.subset secondConstant))
            DiffOptions.standard none).perform plainMachine v).1 = .ok numeric := by
  have hmake : Checker.make slanted.toEvaluator (some [some (.subset secondConstant), none])
      DiffOptions.standard (.whole 10) = .ok slantedChecker := rfl
  have hinto : ((slantedChecker.probeInto slantedPoint 1e-9 Record.blank).perform plainMachine
      ⟨(), [], []⟩).1.map Prod.fst = .ok (.ok true) := by decide +kernel
  obtain ⟨⟨verdict, record⟩, hr, rfl⟩ := Except.map_eq_ok_iff.1 hinto
  have hcompletes : slantedChecker.Completes plainMachine ⟨(), [], []⟩ slantedPoint := by
    obtain ⟨ending, hrun, hv, -⟩ := Checker.perform_probeInto_iff.1 (eq_mk_of_fst hr)
    obtain ⟨blocks, reading, w₁, ms, w₂, hb, hread, hms, -⟩ :=
      (Checker.verdict_iff_agrees hrun hv).1 rfl
    exact ⟨blocks, reading, w₁, ms, w₂, hb, hread, hms⟩
  have hmanifolds : ∀ k, ∀ m ∈ BlockSpace.givenAt
      (some [some (Manifold.subset (σ := Unit) (α := Float) secondConstant), none]) k,
      m.Has fun _ a => a.Respects (SeenAlike fun _ => ()) := by
    intro k m hm
    have hmem : some m ∈ [some (.subset secondConstant), none] :=
      List.mem_of_getElem? (Option.join_eq_some_iff.1 hm)
    obtain rfl : m = .subset secondConstant := by simpa using hmem
    exact Manifold.has_of_not_custom (Action.inherited_respects _).chained nofun
  obtain ⟨blocks, hb, -, -, hblocks, -⟩ := Checker.record_standalone slanted (fun _ => ())
    slanted_deterministic ⟨fun _ _ _ => rfl, fun _ _ _ _ _ => rfl⟩ _ hmanifolds _ _ slantedChecker
    hmake plainMachine ⟨(), [], []⟩ _ slantedPoint 1e-9 Record.blank record true (eq_mk_of_fst hr)
    hcompletes
  obtain rfl : [[1.0, 5.0], [3.0]] = blocks := Except.ok.inj hb
  obtain ⟨_, _, _, numeric, _, -, -, -, hnumeric, -, h⟩ := hblocks 0 _ rfl
  exact ⟨hmake, hcompletes, record, _, eq_mk_of_fst hr, numeric, hnumeric,
    fun v => h.numericTangent v rfl⟩

end JacobianAudit
