/-
**What a record costs.**

A probe that keeps a record also differentiates the blocks that live on manifolds along their
entries, which takes the evaluator to points off the manifold. The verdict is not formed from these
matrices, but a point off the manifold at which the evaluator has no value ends the probe. This
module compares a probe with a record and one without: apart from that the two agree.

The comparison is for evaluators that answer the same whenever they are asked the same. Manifolds
may keep a state of their own, as long as the evaluator does not touch it.

Main definitions:

* `JacobianAudit.Checker.Separated` — the evaluator is deterministic and leaves alone what the
  manifolds can see;
* `JacobianAudit.Checker.along` — the derivative along the entries of a block;
* `JacobianAudit.Checker.FailsOffManifold` — the evaluator has no value somewhere off a manifold.

Main results:

* `JacobianAudit.Checker.Differentiates.plain` — what a recording run over the blocks finds, a plain
  one finds as well;
* `JacobianAudit.Checker.interrupted_along_entries` — only the derivative along entries can stop a
  recording run that a plain one survives;
* `JacobianAudit.Checker.recorded_verdict_iff` — **a probe with a record says yes exactly when one
  without does and the evaluator has values off the manifolds**;
* `JacobianAudit.verdict_changed_by_record` — the condition is not idle.
-/

import JacobianAudit.Proofs.Frames
import JacobianAudit.Proofs.Verdict

set_option autoImplicit false

namespace JacobianAudit

variable {σ τ α : Type} [Scalar α]

/-- What is compared of a block: its two Jacobians along the tangent coordinates. -/
def BlockMatrices.compared (m : BlockMatrices α) : Tensor α × Tensor α :=
  (m.tangent, m.numericTangent)

/-- The same is seen of two states. -/
def SeenAlike (view : σ → τ) (s s' : σ) : Prop := view s = view s'

namespace Checker

/-- The evaluator's answers do not depend on the world, and it does not change what can be seen of
the callers' state; what the manifolds do depends on no more than that. -/
structure Separated (c : Checker σ α) (view : σ → τ) : Prop where
  deterministic : c.evaluator.Has fun _ a => a.Deterministic
  unseen : c.evaluator.Has fun _ a => a.Moves (SeenAlike view)
  manifolds : ∀ space ∈ c.spaces, ∀ m ∈ space.manifold, m.Has fun _ a =>
    a.Respects (SeenAlike view)

/-- The numeric Jacobian along the coordinates of a manifold or, without one, along the entries. -/
def along (c : Checker σ α) (blocks : List (List α)) (residuals : List α) (k : ℕ)
    (manifold : Option (Manifold σ α)) : Action σ (Tensor α) :=
  estimate c.evaluator (blocks.map .vector) (.count k) manifold c.options
    (some (.vector residuals))

/-- Off the manifold of some block the evaluator has no value where the derivative along entries
needs one. -/
def FailsOffManifold (c : Checker σ α) (machine : Machine) (w : World σ)
    (parameters : List (Supplied α)) : Prop :=
  ∃ blocks reading k space cause, readBlocks parameters c.sizes = .ok blocks ∧
    ((c.read blocks).perform machine w).1 = .ok (some reading) ∧
    c.spaces[k]? = some space ∧ space.manifold.isSome ∧
    ((c.along blocks reading.residuals k none).perform machine w).1 = .error (.evaluation cause)

variable {c : Checker σ α} {view : σ → τ} {machine : Machine} {w w' w₁ w₁' w₂ : World σ}
  {blocks : List (List α)} {residuals : List α} {k : ℕ} {space : BlockSpace σ α}

/-! ### The derivatives of one block -/

theorem perform_numeric_plain {tangent : Tensor α} {ambient : List (Tensor α)} :
    (c.numeric blocks residuals false k space).perform machine w = (.ok (tangent, ambient), w₁) ↔
      (c.along blocks residuals k space.manifold).perform machine w = (.ok tangent, w₁) ∧
        ambient = [] := by
  unfold numeric
  rw [Action.perform_bind_eq_ok_iff]
  constructor
  · rintro ⟨t, w₀, ht, h⟩
    obtain ⟨hpair, rfl⟩ := Prod.mk.inj h
    obtain ⟨rfl, rfl⟩ := Prod.mk.inj (Except.ok.inj hpair)
    exact ⟨ht, rfl⟩
  · rintro ⟨h, rfl⟩
    exact ⟨tangent, w₁, h, rfl⟩

/-- A recording run differentiates along the manifold first, and along the entries afterwards if
there is a manifold. -/
theorem perform_numeric_recording :
    (c.numeric blocks residuals true k space).perform machine w =
      (c.along blocks residuals k space.manifold >>= fun tangent =>
        match space.manifold with
        | none => pure (tangent, [tangent])
        | some _ => c.along blocks residuals k none >>= fun ambient =>
            pure (tangent, [ambient])).perform machine w := by
  unfold numeric
  rw [Action.perform_bind, Action.perform_bind]
  cases space.manifold with
  | none => rfl
  | some m => rfl

theorem of_numeric_recording {tangent : Tensor α} {ambient : List (Tensor α)}
    (h : (c.numeric blocks residuals true k space).perform machine w =
      (.ok (tangent, ambient), w₁)) :
    ∃ w₀, (c.along blocks residuals k space.manifold).perform machine w = (.ok tangent, w₀) ∧
      (space.manifold = none ∧ w₁ = w₀ ∨
        ∃ t, (c.along blocks residuals k none).perform machine w₀ = (.ok t, w₁)) := by
  rw [perform_numeric_recording] at h
  obtain ⟨t, w₀, ht, h⟩ := Action.perform_bind_eq_ok_iff.1 h
  cases hm : space.manifold with
  | none =>
      rw [hm] at h ht
      obtain ⟨hpair, rfl⟩ := Prod.mk.inj h
      obtain ⟨rfl, -⟩ := Prod.mk.inj (Except.ok.inj hpair)
      exact ⟨_, ht, .inl ⟨rfl, rfl⟩⟩
  | some m =>
      rw [hm] at h ht
      obtain ⟨a, w₂, ha, h⟩ := Action.perform_bind_eq_ok_iff.1 h
      obtain ⟨hpair, rfl⟩ := Prod.mk.inj h
      obtain ⟨rfl, -⟩ := Prod.mk.inj (Except.ok.inj hpair)
      exact ⟨w₀, ht, .inr ⟨a, ha⟩⟩

/-- Without a manifold the derivative along the entries is the one that there is already. -/
theorem ambient_of_numeric_recording {tangent : Tensor α} {ambient : List (Tensor α)}
    (h : (c.numeric blocks residuals true k space).perform machine w =
      (.ok (tangent, ambient), w₁)) :
    ∃ t w₀, ambient = [t] ∧
      ((c.along blocks residuals k none).perform machine w₀).1 = .ok t := by
  rw [perform_numeric_recording] at h
  obtain ⟨t, w₀, ht, h⟩ := Action.perform_bind_eq_ok_iff.1 h
  cases hm : space.manifold with
  | none =>
      rw [hm] at h ht
      obtain ⟨rfl, rfl⟩ := Prod.mk.inj (Except.ok.inj (Prod.mk.inj h).1)
      exact ⟨_, w, rfl, by rw [ht]⟩
  | some m =>
      rw [hm] at h
      obtain ⟨a, w₂, ha, h⟩ := Action.perform_bind_eq_ok_iff.1 h
      obtain ⟨rfl, rfl⟩ := Prod.mk.inj (Except.ok.inj (Prod.mk.inj h).1)
      exact ⟨_, w₀, rfl, by rw [ha]⟩

theorem of_numeric_recording_error {fault : Fault}
    (h : (c.numeric blocks residuals true k space).perform machine w = (.error fault, w₁)) :
    (c.along blocks residuals k space.manifold).perform machine w = (.error fault, w₁) ∨
      space.manifold.isSome ∧ ∃ tangent w₀,
        (c.along blocks residuals k space.manifold).perform machine w = (.ok tangent, w₀) ∧
          (c.along blocks residuals k none).perform machine w₀ = (.error fault, w₁) := by
  rw [perform_numeric_recording] at h
  rcases Action.perform_bind_eq_error_iff.1 h with ht | ⟨t, w₀, ht, h⟩
  · exact .inl ht
  · cases hm : space.manifold with
    | none =>
        rw [hm] at h
        cases (Prod.mk.inj h).1
    | some m =>
        rw [hm] at h ht
        rcases Action.perform_bind_eq_error_iff.1 h with ha | ⟨a, w₂, -, h⟩
        · exact .inr ⟨rfl, t, w₀, ht, ha⟩
        · cases (Prod.mk.inj h).1

/-! ### What the two runs have in common -/

namespace Separated

variable (hc : c.Separated view)

include hc

theorem respects : c.evaluator.Has fun _ a => a.Respects (SeenAlike view) := by
  intro parameters request machine w w' h
  refine ⟨hc.deterministic parameters request machine w w', ?_⟩
  have hw : view w.shared = _ := hc.unseen parameters request machine w
  have hw' : view w'.shared = _ := hc.unseen parameters request machine w'
  exact hw.symm.trans (h.trans hw')

theorem along_respects (hspace : space ∈ c.spaces) :
    (c.along blocks residuals k space.manifold).Respects (SeenAlike view) :=
  estimate_inherits (Action.inherited_respects _) hc.respects (hc.manifolds space hspace) _ _ _ _

/-- The derivative along entries calls no manifold, so it is not seen. -/
theorem along_unseen (blocks : List (List α)) (residuals : List α) (k : ℕ) :
    (c.along blocks residuals k none).Moves (SeenAlike view) :=
  estimate_inherits (Action.inherited_moves (r := SeenAlike view) (fun _ => rfl)
    fun _ _ _ h h' => h.trans h') hc.unseen (by simp) _ _ _ _

/-- Nor is it seen whether it was taken at all. -/
theorem seen_of_entries {w₀ : World σ} (h : space.manifold = none ∧ w₁ = w₀ ∨
    ∃ t, (c.along blocks residuals k none).perform machine w₀ = (.ok t, w₁)) :
    SeenAlike view w₁.shared w₀.shared := by
  rcases h with ⟨-, rfl⟩ | ⟨t, ht⟩
  · rfl
  · have hunseen := hc.along_unseen blocks residuals k machine w₀
    rw [ht] at hunseen
    exact Eq.symm hunseen

/-- And what it answers does not depend on the world. -/
theorem along_deterministic : (c.along blocks residuals k none).Deterministic := by
  exact estimate_inherits Action.inherited_deterministic hc.deterministic (by simp) _ _ _ _

theorem project_respects (hspace : space ∈ c.spaces) (jacobian point : Supplied α) :
    (project jacobian space.manifold point).Respects (SeenAlike view) :=
  project_inherits (Action.inherited_respects _).chained (hc.manifolds space hspace) jacobian point

theorem read_respects : (c.read blocks).Respects (SeenAlike view) :=
  read_inherits (Action.inherited_respects _) hc.respects blocks

end Separated

/-! ### Runs over the blocks -/

variable {todo : List (ℕ × BlockSpace σ α × List α × Tensor α)} {ms ms' : List (BlockMatrices α)}

/-- What a recording run over the blocks finds, a plain one finds as well, and every block that
lives on a manifold could be differentiated along its entries. -/
theorem Differentiates.plain (hc : c.Separated view)
    (h : c.Differentiates machine blocks residuals true todo w ms w₂)
    (hmem : ∀ task ∈ todo, task.2.1 ∈ c.spaces) (hw : SeenAlike view w.shared w'.shared) :
    (∃ ms' w₂', c.Differentiates machine blocks residuals false todo w' ms' w₂' ∧
      ms'.map BlockMatrices.compared = ms.map BlockMatrices.compared) ∧
    ∀ task ∈ todo, task.2.1.manifold.isSome →
      ∃ t, ∀ w₀, ((c.along blocks residuals task.1 none).perform machine w₀).1 = .ok t := by
  induction h generalizing w' with
  | nil => exact ⟨⟨[], w', .nil, rfl⟩, nofun⟩
  | @cons k space block jacobian rest w w₁ w₂ w₃ m ms hp hn _ ih =>
      have hspace : space ∈ c.spaces := hmem _ List.mem_cons_self
      obtain ⟨w₁', hp', hw₁⟩ := (hc.project_respects hspace _ _).perform hw hp
      obtain ⟨w₀, hn, hentries⟩ := of_numeric_recording hn
      obtain ⟨w₀', hn', hw₀⟩ := (hc.along_respects hspace).perform hw₁ hn
      -- the derivative along entries is the only thing that the plain run leaves out
      have hw₂ : SeenAlike view w₂.shared w₀'.shared := (hc.seen_of_entries hentries).trans hw₀
      obtain ⟨⟨ms', w₃', hrest, hpairs⟩, hall⟩ :=
        ih (fun task ht => hmem task (List.mem_cons_of_mem _ ht)) hw₂
      refine ⟨⟨⟨m.tangent, m.numericTangent, []⟩ :: ms', w₃', ?_, ?_⟩, ?_⟩
      · exact .cons hp' (perform_numeric_plain.2 ⟨hn', rfl⟩) hrest
      · rw [List.map_cons, List.map_cons, hpairs]
        rfl
      · intro task ht hsome
        rcases List.mem_cons.1 ht with rfl | ht
        · rcases hentries with ⟨hnone, -⟩ | ⟨t, ht⟩
          · rw [hnone] at hsome
            cases hsome
          · refine ⟨t, fun v => ?_⟩
            rw [hc.along_deterministic machine v w₀, ht]
        · exact hall task ht hsome

/-- Only the derivative along the entries of a block that lives on a manifold can stop a recording
run where a plain one gets through. -/
theorem interrupted_along_entries (hc : c.Separated view) {reading : Reading α}
    {progress after : Progress α} {fault : Fault}
    (h : (c.differentiate blocks reading true todo progress).perform machine w =
      (.ok (after, some (k, fault)), w₂))
    (hplain : c.Differentiates machine blocks reading.residuals false todo w' ms' w₁')
    (hmem : ∀ task ∈ todo, task.2.1 ∈ c.spaces) (hw : SeenAlike view w.shared w'.shared) :
    (∃ task ∈ todo, task.1 = k ∧ task.2.1.manifold.isSome) ∧
      ∀ w₀, ((c.along blocks reading.residuals k none).perform machine w₀).1 = .error fault := by
  induction hplain generalizing w progress with
  | nil => cases (Prod.mk.inj h).1
  | @cons i space block jacobian rest v v₁ v₂ v₃ m ms hp hn _ ih =>
      have hspace : space ∈ c.spaces := hmem _ List.mem_cons_self
      have hrest := fun task ht => hmem task (List.mem_cons_of_mem _ ht)
      have hback : SeenAlike view v.shared w.shared := Eq.symm hw
      obtain ⟨w₁, hp', hw₁⟩ := (hc.project_respects hspace _ _).perform hback hp
      obtain ⟨w₀, hn', hw₀⟩ :=
        (hc.along_respects hspace).perform hw₁ (perform_numeric_plain.1 hn).1
      rw [differentiate, Action.perform_attempt_bind, hp'] at h
      simp only [] at h
      rw [Action.perform_attempt_bind] at h
      rcases hnum : (c.numeric blocks reading.residuals true i space).perform machine w₁ with
        ⟨stop | ⟨tangent, ambient⟩, u⟩
      · -- the recording run stops at this block
        rw [hnum] at h
        obtain ⟨hpair, rfl⟩ := Prod.mk.inj h
        obtain ⟨-, hstop⟩ := Prod.mk.inj (Except.ok.inj hpair)
        obtain ⟨rfl, rfl⟩ := Prod.mk.inj (Option.some.inj hstop)
        rcases of_numeric_recording_error hnum with hfail | ⟨hsome, _, u₀, -, hfail⟩
        · rw [hn'] at hfail
          cases hfail
        · refine ⟨⟨_, List.mem_cons_self, rfl, hsome⟩, fun w' => ?_⟩
          rw [hc.along_deterministic machine w' u₀, hfail]
      · rw [hnum] at h
        obtain ⟨u₀, hn₀, hentries⟩ := of_numeric_recording hnum
        obtain ⟨-, rfl⟩ : tangent = m.numericTangent ∧ u₀ = w₀ := by
          rw [hn'] at hn₀
          obtain ⟨hanswer, rfl⟩ := Prod.mk.inj hn₀
          exact ⟨(Except.ok.inj hanswer).symm, rfl⟩
        have hu : SeenAlike view u.shared v₂.shared :=
          (hc.seen_of_entries hentries).trans (Eq.symm hw₀)
        obtain ⟨⟨task, ht, htask⟩, hfail⟩ := ih h hrest hu
        exact ⟨⟨task, List.mem_cons_of_mem _ ht, htask⟩, hfail⟩

/-! ### Verdicts -/

/-- Matrices agree if the same matrices that another run found do. -/
theorem within_of_compared {tolerance : α}
    (h : ms'.map BlockMatrices.compared = ms.map BlockMatrices.compared)
    (hms : ∀ m ∈ ms, Within tolerance m.tangent m.numericTangent) :
    ∀ m ∈ ms', Within tolerance m.tangent m.numericTangent := by
  intro m hm
  have hmap : m.compared ∈ ms.map BlockMatrices.compared := h ▸ List.mem_map_of_mem hm
  obtain ⟨m₀, hm₀, heq⟩ := List.mem_map.1 hmap
  obtain ⟨ht, hn⟩ := Prod.mk.inj heq
  exact ht ▸ hn ▸ hms m₀ hm₀

theorem mem_spaces_of_mem_tasks {jacobians : List (Tensor α)} :
    ∀ task ∈ c.tasks blocks jacobians, task.2.1 ∈ c.spaces :=
  fun _ ht => List.mem_of_getElem? (mem_tasks_iff.1 ht).1

variable {parameters : List (Supplied α)} {tolerance : α}

/-- Where a recording probe agrees, so does a plain one, and no derivative along entries fails. -/
theorem Agrees.plain (hc : c.Separated view) (hw : SeenAlike view w.shared w'.shared)
    (h : c.Agrees machine w' parameters tolerance true) :
    c.Agrees machine w parameters tolerance false ∧
      ¬c.FailsOffManifold machine w parameters := by
  obtain ⟨blocks, reading, v₁, ms, v₂, hb, hread, hms, hlen, hwithin⟩ := h
  obtain ⟨u₁, hread', hu₁⟩ := hc.read_respects.perform (Eq.symm hw) hread
  obtain ⟨⟨ms', u₂, hms', hpairs⟩, hentries⟩ := hms.plain hc mem_spaces_of_mem_tasks hu₁
  have hlen' : ms'.length = c.spaces.length := by
    simpa [hlen] using congrArg List.length hpairs
  refine ⟨⟨blocks, reading, u₁, ms', u₂, hb, hread', hms', hlen',
    within_of_compared hpairs hwithin⟩, ?_⟩
  rintro ⟨blocks', reading', k, space, cause, hb', hread'', hk, hsome, hfail⟩
  obtain rfl : blocks = blocks' := Except.ok.inj (hb.symm.trans hb')
  rw [hread'] at hread''
  obtain rfl := Option.some.inj (Except.ok.inj hread'')
  have hlb : blocks.length = c.spaces.length := by
    rw [length_of_readBlocks hb, sizes, List.length_map]
  obtain ⟨_, _, ht⟩ := exists_task hlb (length_of_read hlb hread') hk
  obtain ⟨t, hok⟩ := hentries _ ht hsome
  rw [hok] at hfail
  cases hfail

/-- Where a plain probe agrees and no derivative along entries fails, a recording probe that answers
agrees as well. -/
theorem Agrees.recording (hc : c.Separated view) (hw : SeenAlike view w.shared w'.shared)
    (h : c.Agrees machine w parameters tolerance false)
    (hno : ¬c.FailsOffManifold machine w parameters) {ending : Ending α} {verdict : Bool}
    (hrun : (c.run parameters tolerance true).perform machine w' = (.ok ending, w₁'))
    (hv : ending.verdict tolerance = .ok verdict) :
    c.Agrees machine w' parameters tolerance true := by
  obtain ⟨blocks, reading, v₁, ms, v₂, hb, hread, hms, hlen, hwithin⟩ := h
  obtain ⟨-, blocks', hb', hat⟩ := of_run_verdict hrun hv
  obtain rfl : blocks = blocks' := Except.ok.inj (hb.symm.trans hb')
  obtain ⟨u₁, hread', hu₁⟩ := hc.read_respects.perform hw hread
  have hback : SeenAlike view u₁.shared v₁.shared := Eq.symm hu₁
  -- a recording run that gets through the blocks finds matrices that agree
  have hthrough : ∀ {ms' u₂}, c.Differentiates machine blocks reading.residuals true
      (c.tasks blocks reading.jacobians) u₁ ms' u₂ →
        c.Agrees machine w' parameters tolerance true := by
    intro ms' u₂ hms'
    obtain ⟨⟨ms'', v₂', hms'', hpairs⟩, -⟩ := hms'.plain hc mem_spaces_of_mem_tasks hback
    obtain rfl := hms.unique hms''
    have hlen' : ms'.length = c.spaces.length := by
      simpa [hlen] using (congrArg List.length hpairs).symm
    exact ⟨blocks, reading, u₁, ms', u₂, hb, hread', hms', hlen',
      within_of_compared hpairs.symm hwithin⟩
  have hsame : ∀ {found v}, (c.read blocks).perform machine w' = (.ok (some found), v) →
      found = reading ∧ v = u₁ := by
    intro found v h
    rw [hread'] at h
    obtain ⟨hanswer, rfl⟩ := Prod.mk.inj h
    exact ⟨(Option.some.inj (Except.ok.inj hanswer)).symm, rfl⟩
  cases ends_of_runAt hat with
  | faulted => cases hv
  | pointFailed h =>
      rw [hread'] at h
      cases Option.some_ne_none _ (Except.ok.inj (Prod.mk.inj h).1)
  | @interrupted _ _ k fault _ _ h hd =>
      obtain ⟨rfl, rfl⟩ := hsame h
      obtain ⟨⟨task, ht, rfl, hsome⟩, hfail⟩ :=
        interrupted_along_entries hc hd hms mem_spaces_of_mem_tasks hback
      cases fault with
      | evaluation cause =>
          exact absurd ⟨blocks, _, task.1, task.2.1, cause, hb, congrArg Prod.fst hread,
            (mem_tasks_iff.1 ht).1, hsome, hfail w⟩ hno
      | _ => cases hv
  | incomparable h hms' _ =>
      obtain ⟨rfl, rfl⟩ := hsame h
      exact hthrough hms'
  | compared h hms' _ =>
      obtain ⟨rfl, rfl⟩ := hsame h
      exact hthrough hms'

variable [OrderedScalar α]

/-- **A probe with a record says yes exactly when one without does and the evaluator has values
where the derivatives along the entries need them.** The two may be run one after the other or
apart, as long as the manifolds find what they depend on as it was. -/
theorem recorded_verdict_iff (c : Checker σ α) (view : σ → τ) (hc : c.Separated view)
    (machine : Machine) (w w' : World σ) (hw : SeenAlike view w.shared w'.shared)
    (parameters : List (Supplied α)) (tolerance : α) (before record : Record α)
    (plain recorded : Bool) (w₁ w₁' : World σ)
    (hplain : (c.probe parameters tolerance).perform machine w = (.ok plain, w₁))
    (hrecorded : (c.probeInto parameters tolerance before).perform machine w' =
      (.ok (.ok recorded, record), w₁')) :
    recorded = true ↔ plain = true ∧ ¬c.FailsOffManifold machine w parameters := by
  obtain ⟨ending, _, hrun, hv⟩ := Action.perform_bind_eq_ok_iff.1 hplain
  rw [Action.perform_ofExcept, Prod.mk.injEq] at hv
  obtain ⟨ending', _, hrun', hv'⟩ := Action.perform_bind_eq_ok_iff.1 hrecorded
  rw [Action.perform_pure, Prod.mk.injEq, Except.ok.injEq, Prod.mk.injEq] at hv'
  rw [verdict_iff_agrees hrun hv.1, verdict_iff_agrees hrun' hv'.1.1]
  constructor
  · intro hagrees
    exact hagrees.plain hc hw
  · rintro ⟨hagrees, hno⟩
    exact hagrees.recording hc hw hno hrun' hv'.1.1

end Checker

/-! ### An evaluator with values on the manifold only -/

/-- The residual `3 x₀`, which is there only where `x₁ = 1`. -/
def pinned : Functions Unit Float where
  function parameters := Action.ofExcept do
    let entries ← parameters.mapM Supplied.entries
    match entries with
    | [[x, y]] => return if Scalar.eq y 1.0 then .vector [3.0 * x] else .nothing
    | _ => throw .entryIndex
  jacobian := some fun _ => pure (some [.vector [3.0, 0.0]])
  blockSizes := [2]
  numResiduals := 1

/-- The checker that holds `x₁` constant. -/
def pinnedChecker : Checker Unit Float where
  evaluator := pinned.toEvaluator
  spaces := [firstFree]
  options := DiffOptions.standard
  cap := defaultCap

theorem pinned_deterministic : pinned.toEvaluator.Has fun _ a => a.Deterministic := by
  have hP := Action.inherited_deterministic (σ := Unit)
  refine Functions.evaluate_inherits hP
    ⟨fun parameters => hP.ofExcept _, fun jacobian hj parameters => ?_⟩
  obtain rfl := Option.some.inj hj
  exact hP.pure _

/-- **The record can change the verdict**: a deterministic evaluator, one manifold and one point can
be such that a probe answers yes without a record and no with one. -/
theorem verdict_changed_by_record :
    ¬∀ (evaluator : Evaluator Unit Float)
      (manifolds : Option (List (Option (Manifold Unit Float)))) (options : DiffOptions Float)
      (cap : Setting) (c : Checker Unit Float) (machine : Machine) (w : World Unit)
      (parameters : List (Supplied Float)) (blocks : List (List Float)) (tolerance : Float)
      (plain recorded : Bool) (record : Record Float) (w₁ w₁' : World Unit),
      (evaluator.Has fun _ a => a.Deterministic) →
      Checker.make evaluator manifolds options cap = .ok c →
      readBlocks parameters c.sizes = .ok blocks → Scalar.le Scalar.zero tolerance = true →
      (c.probe parameters tolerance).perform machine w = (.ok plain, w₁) →
      (c.probeInto parameters tolerance Record.blank).perform machine w =
        (.ok (.ok recorded, record), w₁') → recorded = plain := by
  intro h
  have hmake : Checker.make pinned.toEvaluator (some [some (.subset secondConstant)])
      DiffOptions.standard (.whole defaultCap) = .ok pinnedChecker := rfl
  have ht : Scalar.le Scalar.zero (1e-9 : Float) = true := by decide +kernel
  have hplain : ((pinnedChecker.probe [.vector [2.0, 1.0]] 1e-9).perform plainMachine
      ⟨(), [], []⟩).1 = .ok true := by decide +kernel
  have hinto : ((pinnedChecker.probeInto [.vector [2.0, 1.0]] 1e-9 Record.blank).perform
      plainMachine ⟨(), [], []⟩).1.map Prod.fst = .ok (.ok false) := by decide +kernel
  obtain ⟨⟨verdict, record⟩, hr, rfl⟩ := Except.map_eq_ok_iff.1 hinto
  have hsame := h pinned.toEvaluator _ _ _ pinnedChecker plainMachine ⟨(), [], []⟩
    [.vector [2.0, 1.0]] [[2.0, 1.0]] 1e-9 true false record _ _ pinned_deterministic hmake rfl ht
    (eq_mk_of_fst hplain) (eq_mk_of_fst hr)
  cases hsame

theorem recorded_verdict_iff_pinned :
    pinnedChecker.Separated (fun s : Unit => s) ∧
      ((pinnedChecker.probe [.vector [2.0, 1.0]] 1e-9).perform plainMachine
        ⟨(), [], []⟩).1 = .ok true ∧
      ((pinnedChecker.probeInto [.vector [2.0, 1.0]] 1e-9 Record.blank).perform plainMachine
        ⟨(), [], []⟩).1.map Prod.fst = .ok (.ok false) ∧
      pinnedChecker.FailsOffManifold plainMachine ⟨(), [], []⟩ [.vector [2.0, 1.0]] := by
  have hc : pinnedChecker.Separated (fun s : Unit => s) := by
    refine ⟨pinned_deterministic, fun _ _ _ _ => rfl, fun space hs m hm => ?_⟩
    obtain rfl := List.mem_singleton.1 hs
    obtain rfl := Option.some.inj hm
    exact Manifold.has_of_not_custom (Action.inherited_respects _).chained nofun
  have hplain : ((pinnedChecker.probe [.vector [2.0, 1.0]] 1e-9).perform plainMachine
      ⟨(), [], []⟩).1 = .ok true := by decide +kernel
  have hinto : ((pinnedChecker.probeInto [.vector [2.0, 1.0]] 1e-9 Record.blank).perform
      plainMachine ⟨(), [], []⟩).1.map Prod.fst = .ok (.ok false) := by decide +kernel
  refine ⟨hc, hplain, hinto, ?_⟩
  obtain ⟨⟨verdict, record⟩, hr, rfl⟩ := Except.map_eq_ok_iff.1 hinto
  have h := Checker.recorded_verdict_iff pinnedChecker (fun s : Unit => s) hc plainMachine
    ⟨(), [], []⟩ ⟨(), [], []⟩ rfl [.vector [2.0, 1.0]] 1e-9 Record.blank record true false _ _
    (eq_mk_of_fst hplain) (eq_mk_of_fst hr)
  by_contra hno
  cases h.2 ⟨rfl, hno⟩

end JacobianAudit
