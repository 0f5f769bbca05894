/-
**The number of threads cannot be observed.**

The columns of a numeric Jacobian are tasks that may be run in a pool, in whatever order the machine
chooses. If the answers of the evaluator and of the manifolds are settled by what they are asked,
neither the number of workers nor the machine can be told from a Jacobian, a verdict or a record.
What can be told is which calls are made: a pool runs every column to its end, and without a pool
nothing is called after the first column that fails.

Main definitions:

* `JacobianAudit.Action.Settled` — the answer depends neither on the machine nor on the world;
* `JacobianAudit.DiffOptions.withWorkers`, `JacobianAudit.Checker.withWorkers` — another number of
  workers;
* `JacobianAudit.Coupling.free`, `JacobianAudit.Coupling.behind` — runs from any two starts, and
  runs of which one has a longer trace behind it;
* `JacobianAudit.Site.columns`, `JacobianAudit.gather` — the columns as numbered tasks, and how they
  are run and put together;
* `JacobianAudit.Gathers` — what comes of columns whose outcomes are settled.

Main results:

* `JacobianAudit.sameRuns_free` — settled tasks run alike on any two numbers of workers;
* `JacobianAudit.exists_does` — settled actions do the same wherever they are run;
* `JacobianAudit.Checker.threads_unobservable` — **threads are observed in the calls only**.
-/

import JacobianAudit.Proofs.Deeds
import JacobianAudit.Proofs.Surveys
import JacobianAudit.Proofs.Transparency

set_option autoImplicit false

namespace JacobianAudit

variable {σ α β ε : Type}

/-- What the action answers is settled by the call: neither the machine nor the world matters. -/
def Action.Settled (a : Action σ β) : Prop :=
  ∀ machine machine' w w', (a.perform machine w).1 = (a.perform machine' w').1

theorem Action.Settled.ofExcept (answer : Except Fault β) :
    (Action.ofExcept answer : Action σ β).Settled := by
  intro machine machine' w w'
  rw [perform_ofExcept, perform_ofExcept]

/-! ### Runs from any two starts -/

/-- Any two runs. -/
def Coupling.free : Coupling σ := ⟨fun _ _ => True, fun _ _ => True⟩

theorem Action.Settled.steady {a : Action σ β} (h : a.Settled) : a.Steady .free β :=
  fun machine machine' w w' _ _ => ⟨h machine machine' w w' ▸ .rfl, trivial⟩

theorem Evaluator.Has.steady {e : Evaluator σ α} (h : e.Has fun _ a => a.Settled) :
    e.Has (Action.Steady .free) :=
  fun parameters request => (h parameters request).steady

theorem Manifold.Has.steady [Scalar α] {m : Manifold σ α} (h : m.Has fun _ a => a.Settled) :
    m.Has (Action.Steady .free) :=
  ⟨fun x d => (h.1 x d).steady, fun x => (h.2 x).steady⟩

theorem Action.Coupled.fst_eq {a b : Action σ β} (h : a.Coupled .free Eq b)
    (machine machine' : Machine) (w w' : World σ) :
    (a.perform machine w).1 = (b.perform machine' w').1 :=
  (h machine machine' w w' trivial trivial).1.eq

theorem map_range_getD {γ : Type} (xs : List γ) (d : γ) :
    (List.range xs.length).map (fun i => xs[i]?.getD d) = xs := by
  refine List.ext_getElem (by simp) fun i hi hi' => ?_
  rw [List.getElem_map, List.getElem_range, List.getElem?_eq_getElem hi', Option.getD_some]

/-- **Settled tasks run alike** with any two settings that ask for some number of workers, on any
two machines: there is one answer to each task, and both runs put these together. -/
theorem sameRuns_free {setting setting' : Setting}
    (hs : ∃ k, Workers.requested setting = .ok k) (hs' : ∃ k, Workers.requested setting' = .ok k) :
    (Coupling.free : Coupling σ).SameRuns setting setting' := by
  intro β tasks tasks' htasks machine machine' w w' _ _
  have hlength := htasks.length_eq
  -- the answers, as the first of the two runs would find them
  let outcome : ℕ → Except Fault β × List Unit := fun i =>
    (((tasks[i]?.getD (throw .memory)).perform machine w).1, [])
  have hpair : ∀ i < tasks.length, (tasks[i]?.getD (throw .memory)).Coupled .free Eq
      (tasks'[i]?.getD (throw .memory)) := by
    intro i hi
    rw [List.getElem?_eq_getElem hi, List.getElem?_eq_getElem (hlength ▸ hi)]
    exact htasks.get hi (hlength ▸ hi)
  have hright : ∀ i < tasks.length, (tasks'[i]?.getD (throw .memory)).Does
      (fun _ => []) (outcome i).1 (outcome i).2 := fun i hi machine₂ w₂ =>
    ⟨((hpair i hi).fst_eq machine machine₂ w w₂).symm, rfl⟩
  have hleft : ∀ i < tasks.length, (tasks[i]?.getD (throw .memory)).Does
      (fun _ => []) (outcome i).1 (outcome i).2 := fun i hi machine₁ w₁ =>
    ⟨((hpair i hi).fst_eq machine₁ machine w₁ w).trans (hright i hi machine w).1, rfl⟩
  obtain ⟨-, -, hrun, -⟩ := Workers.run_does hs hleft machine w
  obtain ⟨-, -, hrun', -⟩ := Workers.run_does hs' hright machine' w'
  rw [map_range_getD] at hrun
  rw [hlength, map_range_getD] at hrun'
  rw [hrun, hrun', hlength]
  exact ⟨.rfl, trivial⟩

/-- With one setting, settled tasks run alike even if there is no end to the workers it asks for. -/
theorem sameRuns_free_self (setting : Setting) :
    (Coupling.free : Coupling σ).SameRuns setting setting := by
  cases hs : Workers.requested setting with
  | ok k => exact sameRuns_free ⟨k, hs⟩ ⟨k, hs⟩
  | error fault =>
      intro β tasks tasks' _ machine machine' w w' _ _
      rw [Workers.run_of_requested_error hs, Workers.run_of_requested_error hs]
      exact ⟨.error fault, trivial⟩

/-! ### Runs with a longer trace -/

/-- The trace of the one run has a beginning that the other lacks. -/
def Coupling.behind (trace : List ε) : Coupling (σ × List ε) :=
  ⟨fun _ _ => True, fun s s' => s.2 = trace ++ s'.2⟩

/-- Where the trace so far makes no difference, the action does the same wherever it is run. -/
theorem exists_does {a : Action (σ × List ε) β}
    (h : ∀ trace, a.Coupled (.behind trace) Eq a) :
    ∃ answer deeds, a.Does Prod.snd answer deeds := by
  by_cases hσ : Nonempty σ
  · obtain ⟨s⟩ := hσ
    let start : World (σ × List ε) := ⟨(s, []), [], []⟩
    refine ⟨(a.perform plainMachine start).1, (a.perform plainMachine start).2.shared.2,
      fun machine w => ?_⟩
    obtain ⟨halike, htrace⟩ := h w.shared.2 machine plainMachine w start trivial
      (List.append_nil _).symm
    exact ⟨halike.eq, htrace⟩
  · exact ⟨.error .memory, [], fun _ w => absurd ⟨w.shared.1⟩ hσ⟩

/-- An action beside the trace leaves it alone. -/
theorem Action.Settled.beside {a : Action σ β} (h : a.Settled) (trace : List ε) :
    a.beside.Steady (.behind trace) β := by
  intro machine machine' w w' _ hw
  rw [Action.perform_beside, Action.perform_beside]
  exact ⟨h machine machine' _ _ ▸ .rfl, hw⟩

theorem Action.Settled.tracing {a : Action σ β} (h : a.Settled) (event : Event α)
    (trace : List (Event α)) : (JacobianAudit.tracing event a).Steady (.behind trace) β := by
  intro machine machine' w w' _ hw
  have hw : w.shared.2 = trace ++ w'.shared.2 := hw
  rw [perform_tracing, perform_tracing]
  refine ⟨h machine machine' _ _ ▸ .rfl, ?_⟩
  show w.shared.2 ++ [event] = trace ++ (w'.shared.2 ++ [event])
  rw [hw, List.append_assoc]

theorem Evaluator.traced_steady {e : Evaluator σ α} (h : e.Has fun _ a => a.Settled)
    (trace : List (Event α)) : e.traced.Has (Action.Steady (.behind trace)) :=
  fun parameters request => (h parameters request).tracing _ trace

/-- An evaluator that is coupled with itself has the same residuals as itself. -/
theorem Evaluator.SameResiduals.of_steady {p : Coupling σ} {e : Evaluator σ α}
    (h : e.Has (Action.Steady p)) : e.SameResiduals p e where
  blockSizes := rfl
  numResiduals := rfl
  evaluate parameters := (h parameters none).mono fun x y hxy => by
    subst hxy
    cases x with
    | none => exact .none
    | some answer => exact .some rfl

variable [Scalar α]

theorem Manifold.beside_steady {m : Manifold σ α} (h : m.Has fun _ a => a.Settled)
    (trace : List ε) : m.beside.Has (Action.Steady (.behind trace)) := by
  cases m with
  | custom manifold => exact ⟨fun x d => (h.1 x d).beside trace, fun x => (h.2 x).beside trace⟩
  | euclidean space => exact ⟨fun _ _ => .ofExcept .rfl, fun _ => .ofExcept .rfl⟩
  | subset space => exact ⟨fun _ _ => .ofExcept .rfl, fun _ => .ofExcept .rfl⟩
  | quaternion => exact ⟨fun _ _ => .ofExcept .rfl, fun _ => .ofExcept .rfl⟩
  | linear map => exact ⟨fun _ _ => .ofExcept .rfl, fun _ => .pure rfl⟩

/-! ### Other numbers of workers -/

/-- The settings with another number of workers. -/
def DiffOptions.withWorkers (o : DiffOptions α) (setting : Setting) : DiffOptions α :=
  { o with workers := setting }

theorem DiffOptions.withWorkers_sameMethod (o : DiffOptions α) (setting setting' : Setting) :
    (o.withWorkers setting).SameMethod (o.withWorkers setting') := ⟨rfl, rfl, rfl, rfl, rfl⟩

/-- The checker with another number of workers. -/
def Checker.withWorkers (c : Checker σ α) (setting : Setting) : Checker σ α :=
  { c with options := c.options.withWorkers setting }

namespace Checker

variable {c : Checker σ α}

/-- Reading the point. -/
theorem read_steady {p : Coupling σ} (h : c.evaluator.Has (Action.Steady p))
    (blocks : List (List α)) : (c.read blocks).Coupled p Eq (c.read blocks) := by
  refine (h _ _).bind_eq fun answer => ?_
  cases answer with
  | none => exact .pure rfl
  | some answer =>
      refine .ofExcept_bind fun residuals _ => ?_
      cases answer.jacobians with
      | none => exact .throw _
      | some jacobians =>
          simp only []
          split
          · exact .ofExcept_bind fun _ _ => .pure rfl
          · exact .throw _

/-- Projecting a Jacobian. -/
theorem project_steady {p : Coupling σ} {manifold : Option (Manifold σ α)}
    (h : ∀ m ∈ manifold, m.Has (Action.Steady p)) (jacobian point : Supplied α) :
    (project jacobian manifold point).Coupled p Eq (project jacobian manifold point) := by
  refine .ofExcept_bind fun j _ => ?_
  split
  · cases hm : manifold with
    | none => exact .pure rfl
    | some m =>
        simp only []
        split
        · exact (stepJacobian_coupled (h m hm) point).bind_pure _
        · exact .throw _
  · exact .throw _

variable {setting setting' : Setting}

/-- **A probe ends the same** with any two numbers of workers, on any two machines. -/
theorem run_withWorkers (hc : c.Has fun _ a => a.Settled)
    (hs : ∃ k, Workers.requested setting = .ok k) (hs' : ∃ k, Workers.requested setting' = .ok k)
    (parameters : List (Supplied α)) (tolerance : α) (recording : Bool)
    (machine machine' : Machine) (w w' : World σ) :
    (((c.withWorkers setting).run parameters tolerance recording).perform machine w).1 =
      (((c.withWorkers setting').run parameters tolerance recording).perform machine' w').1 := by
  have hmanifolds : ∀ space ∈ c.spaces, ∀ m ∈ space.manifold,
      m.Has (Action.Steady .free) := fun space hspace m hm => (hc.2 space hspace m hm).steady
  have he : c.evaluator.Has (Action.Steady .free) := hc.1.steady
  have hsame : SameNumerics .free (c.withWorkers setting) (c.withWorkers setting') :=
    ⟨rfl, .of_steady he, c.options.withWorkers_sameMethod setting setting', sameRuns_free hs hs',
      hmanifolds⟩
  have hread : ∀ blocks, ((c.withWorkers setting).read blocks).Coupled .free (Option.Rel Eq)
      ((c.withWorkers setting').read blocks) := by
    intro blocks
    refine (read_steady (c := c) he blocks).mono fun x y hxy => ?_
    subst hxy
    cases x with
    | none => exact .none
    | some reading => exact .some rfl
  have hsurvey : ∀ blocks, ((c.withWorkers setting).survey blocks recording).Coupled .free
      (Survey.Related Eq Eq) ((c.withWorkers setting').survey blocks recording) := by
    intro blocks
    refine survey_coupled hsame (hread blocks) (fun _ _ h => congrArg Reading.residuals h) ?_
    rintro reading _ rfl
    rw [show (c.withWorkers setting').tasks blocks reading.jacobians =
      (c.withWorkers setting).tasks blocks reading.jacobians from rfl, List.forall₂_same]
    rintro ⟨k, space, block, jacobian⟩ ht
    exact ⟨rfl, rfl, project_steady
      (hmanifolds space (List.mem_of_getElem? (mem_tasks_iff.1 ht).1)) _ _⟩
  have halike : Alike Eq
      (((c.withWorkers setting).run parameters tolerance recording).perform machine w).1
      (((c.withWorkers setting').run parameters tolerance recording).perform machine' w').1 :=
    run_alike (fun _ => rfl) rfl (fun _ _ n h => congrArg (Survey.ending tolerance n) h.eq)
      fun blocks _ => (hsurvey blocks machine machine' w w' trivial trivial).1
  exact halike.eq

/-- What a probe with a record answers, as a function of how it ends. -/
theorem fst_perform_probeInto (c : Checker σ α) (parameters : List (Supplied α)) (tolerance : α)
    (before : Record α) (machine : Machine) (w : World σ) :
    ((c.probeInto parameters tolerance before).perform machine w).1 =
      ((c.run parameters tolerance true).perform machine w).1.map fun ending =>
        (ending.verdict tolerance,
          ending.record c.cap c.evaluator.numResiduals c.sizes c.tangentSizes before) := by
  unfold probeInto
  rw [Action.perform_bind]
  rcases (c.run parameters tolerance true).perform machine w with ⟨fault | ending, w₁⟩ <;> rfl

end Checker

/-! ### The columns of a Jacobian -/

omit [Scalar α] in
/-- A last step that needs no world leaves it alone. -/
theorem Action.snd_perform_bind_ofExcept {γ : Type} (a : Action σ β) (g : β → Except Fault γ)
    (machine : Machine) (w : World σ) :
    ((a >>= fun x => Action.ofExcept (g x)).perform machine w).2 = (a.perform machine w).2 := by
  rw [Action.perform_bind]
  rcases a.perform machine w with ⟨fault | x, w₁⟩
  · rfl
  · exact congrArg Prod.snd (Action.perform_ofExcept machine w₁ (g x))

omit [Scalar α] in
theorem Action.ofExcept_bind_eq {γ : Type} {answer : Except Fault β} {x : β} (h : answer = .ok x)
    (f : β → Action σ γ) : (Action.ofExcept answer >>= f) = f x := by
  rw [h]
  rfl

/-- The columns as numbered tasks, from the residuals at the point and the scales. -/
def Site.columns (site : Site σ α) (o : DiffOptions α) (base scales : List α) (i : ℕ) :
    Action σ (List α) :=
  match scales[i]? with
  | some scale => site.column o base i scale
  | none => pure []

theorem Site.map_columns (site : Site σ α) (o : DiffOptions α) (base scales : List α) :
    scales.zipIdx.map (fun q => site.column o base q.2 q.1) =
      (List.range scales.length).map (site.columns o base scales) := by
  refine List.ext_getElem (by simp) fun i hi hi' => ?_
  have hlt : i < scales.length := by simpa using hi
  simp [columns, List.getElem?_eq_getElem hlt]

theorem Site.columns_coupled {p : Coupling σ} (site : Site σ α)
    (he : site.evaluator.SameResiduals p site.evaluator)
    (hm : ∀ m ∈ site.manifold, m.Has (Action.Steady p)) (o : DiffOptions α) (base scales : List α)
    (i : ℕ) :
    (site.columns o base scales i).Coupled p Eq (site.columns o base scales i) := by
  unfold columns
  cases scales[i]? with
  | none => exact .pure rfl
  | some scale => exact Site.column_coupled he hm .rfl base i scale

theorem Ridders.search_withWorkers (central : α → Action σ (Supplied α)) (o : DiffOptions α)
    (setting : Setting) (levels : ℕ) (s : Search α) :
    search central (o.withWorkers setting) levels s = search central o levels s := by
  induction levels generalizing s with
  | zero => rfl
  | succ levels ih =>
      unfold search
      simp only [ih]
      rfl

/-- A column is computed without regard to the number of workers. -/
theorem Site.columns_withWorkers (site : Site σ α) (o : DiffOptions α) (setting : Setting)
    (base scales : List α) (i : ℕ) :
    site.columns (o.withWorkers setting) base scales i = site.columns o base scales i := by
  unfold columns column Ridders.derivative
  simp only [Ridders.search_withWorkers]
  rfl

/-- A numeric Jacobian with at least one column. -/
theorem estimate_eq {e : Evaluator σ α} {parameters : List (Supplied α)} {index : Setting}
    {manifold : Option (Manifold σ α)} {blocks : List (List α)} {k : ℕ} {block scales : List α}
    (hb : readBlocks parameters e.blockSizes = .ok blocks)
    (hk : blockAt blocks index = .ok (k, block))
    (hs : tangentScales index.shown block manifold = .ok (some scales)) (hne : scales ≠ [])
    (o : DiffOptions α) (base : Option (Supplied α)) :
    estimate e parameters index manifold o base =
      baseResiduals e blocks o base >>= fun start =>
        Workers.run o.workers ((List.range scales.length).map
          (Site.columns ⟨e, blocks, k, index.shown, block, manifold, scales.length⟩ o start
            scales)) >>= fun columns =>
        Action.ofExcept
          (e.numResiduals.extent.map fun rows => ofColumns rows.toNat columns) := by
  unfold estimate
  rw [Action.ofExcept_bind_eq hb, Action.ofExcept_bind_eq hk]
  simp only []
  rw [Action.ofExcept_bind_eq hs]
  cases scales with
  | nil => exact absurd rfl hne
  | cons scale rest =>
      simp only [← Site.map_columns]
      refine congrArg (baseResiduals e blocks o base >>= ·) (funext fun start => ?_)
      refine congrArg (Workers.run o.workers _ >>= ·) (funext fun columns => ?_)
      cases e.numResiduals.extent <;> rfl

omit [Scalar α] in
theorem Manifold.ambientSize_beside {ρ : Type} (m : Manifold σ α) :
    (m.beside (ρ := ρ)).ambientSize = m.ambientSize := by
  cases m <;> rfl

omit [Scalar α] in
theorem Manifold.tangentSize_beside {ρ : Type} (m : Manifold σ α) :
    (m.beside (ρ := ρ)).tangentSize = m.tangentSize := by
  cases m <;> rfl

theorem tangentScales_beside {ρ : Type} (shown : String) (block : List α)
    (manifold : Option (Manifold σ α)) :
    tangentScales shown block (manifold.map (Manifold.beside (ρ := ρ))) =
      tangentScales shown block manifold := by
  cases manifold with
  | none => rfl
  | some m =>
      simp only [tangentScales, Option.map_some, Manifold.ambientSize_beside,
        Manifold.tangentSize_beside]

/-- What is gathered from columns whose outcomes are settled. -/
structure Gathers (a : Action (σ × List ε) (Tensor α)) (setting rows : Setting) (n : ℕ)
    (asked : List ε) (outcome : ℕ → Except Fault (List α) × List ε) : Prop where
  /-- The columns come back in the order of the tangent coordinates. -/
  in_order (machine : Machine) (w : World (σ × List ε)) (columns : List (List α)) :
    columns.length = n → (∀ i (hi : i < columns.length), (outcome i).1 = .ok columns[i]) →
    (a.perform machine w).1 = rows.extent.map fun rows => ofColumns rows.toNat columns
  /-- In each row stands what the columns have there. -/
  entries (machine : Machine) (w : World (σ × List ε)) (columns : List (List α)) (t : Tensor α) :
    columns.length = n → (∀ i (hi : i < columns.length), (outcome i).1 = .ok columns[i]) →
    (a.perform machine w).1 = .ok t → ∃ count, rows.extent = .ok count ∧
      t.shape = [count.toNat, n] ∧ ∀ i j (hj : j < columns.length) (hi : i < columns[j].length),
        i < count.toNat → t.get [i, j] = columns[j][i]
  /-- The fault is that of the first column that fails. -/
  first_fault (machine : Machine) (w : World (σ × List ε)) (i : ℕ) (fault : Fault) : i < n →
    (∀ j < i, ∃ column, (outcome j).1 = .ok column) → (outcome i).1 = .error fault →
    (a.perform machine w).1 = .error fault
  /-- A pool makes the calls of all columns, in the machine's order; without a pool there are those
  up to the first column that fails. Here the columns of a pool do not overlap. -/
  calls (machine : Machine) (w : World (σ × List ε)) :
    ∃ workers, Workers.resolve machine setting (.count n) = .ok workers ∧
      (a.perform machine w).2.shared.2 = w.shared.2 ++ asked ++
        if 1 < workers then (machine.order n).flatMap fun i => (outcome i).2
        else Workers.doneInTurn ((List.range n).map outcome)
  /-- What is left of this if columns overlap: a pool shuffles the calls of all columns. -/
  shuffled (machine : Machine) (w : World (σ × List ε)) (workers : ℤ) :
    Workers.resolve machine setting (.count n) = .ok workers → 1 < workers →
    ∃ calls, Workers.Shuffles ((List.range n).map fun i => (outcome i).2) calls ∧
      (a.perform machine w).2.shared.2 = w.shared.2 ++ asked ++ calls

/-- In each row of a matrix stands what its columns have there. -/
theorem get_ofColumns {rows : ℕ} {columns : List (List α)} {i j : ℕ} (hj : j < columns.length)
    (hi : i < columns[j].length) (hrow : i < rows) :
    (ofColumns rows columns).get [i, j] = columns[j][i] := by
  rw [ofColumns, Tensor.get_matrix _ hrow hj, List.getElem?_eq_getElem hj, Option.bind_some,
    List.getElem?_eq_getElem hi, Option.getD_some]

/-- After a start, the columns are run and put together. -/
def gather (setting rows : Setting) (n : ℕ) (base : Action σ (List α))
    (columns : List α → ℕ → Action σ (List α)) : Action σ (Tensor α) :=
  base >>= fun start => Workers.run setting ((List.range n).map (columns start)) >>= fun columns =>
    Action.ofExcept (rows.extent.map fun rows => ofColumns rows.toNat columns)

section Gather

variable {setting rows : Setting} {n : ℕ} {base : Action (σ × List ε) (List α)}
  {residuals : List α} {asked : List ε} {columns : List α → ℕ → Action (σ × List ε) (List α)}
  {outcome : ℕ → Except Fault (List α) × List ε} (hs : ∃ k, Workers.requested setting = .ok k)
  (hbase : base.Does Prod.snd (.ok residuals) asked)
  (hcolumns : ∀ i < n, (columns residuals i).Does Prod.snd (outcome i).1 (outcome i).2)

include hs hbase hcolumns

/-- What is answered and what is called, after a settled start and with settled columns. -/
theorem perform_gather (machine : Machine) (w : World (σ × List ε)) :
    ∃ workers, Workers.resolve machine setting (.count n) = .ok workers ∧
      ((gather setting rows n base columns).perform machine w).1 =
        ((List.range n).mapM fun i => (outcome i).1) >>= (fun columns =>
          rows.extent.map fun rows => ofColumns rows.toNat columns) ∧
      ((gather setting rows n base columns).perform machine w).2.shared.2 =
        w.shared.2 ++ asked ++
          if 1 < workers then (machine.order n).flatMap fun i => (outcome i).2
          else Workers.doneInTurn ((List.range n).map outcome) := by
  obtain ⟨hx, hasked⟩ := hbase machine w
  obtain ⟨workers, hworkers, hanswer, hcalls⟩ :=
    Workers.run_does hs hcolumns machine (base.perform machine w).2
  refine ⟨workers, hworkers, ?_⟩
  simp only [gather, Action.perform_bind_of_ok (eq_mk_of_fst hx), Action.fst_perform_bind_ofExcept,
    Action.snd_perform_bind_ofExcept]
  exact ⟨by rw [hanswer], by rw [hcalls, hasked]⟩

/-- Without a fault in any column, there is the matrix of the columns. -/
theorem fst_perform_gather (machine : Machine) (w : World (σ × List ε)) {found : List (List α)}
    (hlength : found.length = n)
    (hfound : ∀ i (hi : i < found.length), (outcome i).1 = .ok found[i]) :
    ((gather setting rows n base columns).perform machine w).1 =
      rows.extent.map fun rows => ofColumns rows.toNat found := by
  obtain ⟨-, -, hanswer, -⟩ := perform_gather hs hbase hcolumns machine w
  have hall : ((List.range n).mapM fun i => (outcome i).1) = .ok found :=
    Except.mapM_eq_ok_iff_getElem.2
      ⟨by rw [List.length_range, hlength], fun i hi hi' => by simpa using hfound i hi'⟩
  rw [hanswer, hall]
  rfl

/-- Settled columns, after a settled start. -/
theorem gathers_of_does :
    Gathers (gather setting rows n base columns) setting rows n asked outcome where
  in_order machine w _ hlength hfound :=
    fst_perform_gather hs hbase hcolumns machine w hlength hfound
  entries machine w found t hlength hfound ht := by
    rw [fst_perform_gather hs hbase hcolumns machine w hlength hfound] at ht
    obtain ⟨count, hcount, rfl⟩ := Except.map_eq_ok_iff.1 ht
    refine ⟨count, hcount, ?_, fun i j hj hi hrow => get_ofColumns hj hi hrow⟩
    rw [ofColumns, Tensor.shape_matrix, hlength]
  first_fault machine w i fault hi hbefore hfault := by
    obtain ⟨-, -, hanswer, -⟩ := perform_gather hs hbase hcolumns machine w
    rw [hanswer, Workers.mapM_eq_error hi hbefore hfault]
    rfl
  calls machine w := by
    obtain ⟨workers, hworkers, -, hcalls⟩ := perform_gather hs hbase hcolumns machine w
    exact ⟨workers, hworkers, hcalls⟩
  shuffled machine w workers hworkers hpool := by
    obtain ⟨workers', hworkers', -, hcalls⟩ := perform_gather hs hbase hcolumns machine w
    obtain rfl : workers = workers' := Except.ok.inj (hworkers.symm.trans hworkers')
    rw [if_pos hpool] at hcalls
    exact ⟨_, Workers.shuffles_flatMap (machine.order_perm n) _, hcalls⟩

end Gather

namespace Checker

/-- **Threads are observed in the calls only.** If the answers of the evaluator and of the manifolds
are settled by what they are asked, then with any two settings that ask for some number of workers,
on any two machines, a numeric Jacobian is the same or fails the same, and so do verdicts and
records. The columns of a Jacobian come back in the order of the tangent coordinates, and the fault
is that of the first column in that order that has one. A pool makes the calls of every column to
its end, shuffled if the columns overlap; without a pool, there are the calls of the columns up to
the first one with a fault. -/
theorem threads_unobservable (c : Checker σ α) (hc : c.Has fun _ a => a.Settled) :
    (∀ setting setting', (∃ k, Workers.requested setting = .ok k) →
      (∃ k, Workers.requested setting' = .ok k) →
      ∀ (machine machine' : Machine) (w w' : World σ),
      (∀ manifold, (∀ m ∈ manifold, m.Has fun _ a => a.Settled) → ∀ parameters index base,
        ((estimate c.evaluator parameters index manifold (c.options.withWorkers setting)
            base).perform machine w).1 =
          ((estimate c.evaluator parameters index manifold (c.options.withWorkers setting')
            base).perform machine' w').1) ∧
      ∀ parameters tolerance before,
        (((c.withWorkers setting).probe parameters tolerance).perform machine w).1 =
          (((c.withWorkers setting').probe parameters tolerance).perform machine' w').1 ∧
        (((c.withWorkers setting).probeInto parameters tolerance before).perform machine w).1 =
          (((c.withWorkers setting').probeInto parameters tolerance before).perform machine'
            w').1) ∧
    ∀ manifold, (∀ m ∈ manifold, m.Has fun _ a => a.Settled) →
      ∀ parameters index base blocks k block scales,
      readBlocks parameters c.evaluator.blockSizes = .ok blocks →
      blockAt blocks index = .ok (k, block) →
      tangentScales index.shown block manifold = .ok (some scales) → scales ≠ [] →
      let e : Evaluator (σ × List (Event α)) α := c.evaluator.traced
      let observed := manifold.map Manifold.beside
      let site : Site (σ × List (Event α)) α :=
        ⟨e, blocks, k, index.shown, block, observed, scales.length⟩
      ∃ start asked, (baseResiduals e blocks c.options base).Does Prod.snd start asked ∧
        (∀ fault, start = .error fault → ∀ setting,
          (estimate e parameters index observed (c.options.withWorkers setting) base).Does Prod.snd
            (.error fault) asked) ∧
        ∀ residuals, start = .ok residuals →
          ∃ outcome : ℕ → Except Fault (List α) × List (Event α),
            (∀ i scale, scales[i]? = some scale →
              (site.column c.options residuals i scale).Does Prod.snd (outcome i).1
                (outcome i).2) ∧
            ∀ setting, (∃ k, Workers.requested setting = .ok k) →
              Gathers (estimate e parameters index observed (c.options.withWorkers setting) base)
                setting c.evaluator.numResiduals scales.length asked outcome := by
  refine ⟨fun setting setting' hs hs' machine machine' w w' => ⟨?_, ?_⟩, ?_⟩
  · intro manifold hm parameters index base
    exact (estimate_coupled (.of_steady hc.1.steady) (fun m hmem => (hm m hmem).steady)
      (c.options.withWorkers_sameMethod setting setting') (sameRuns_free hs hs') parameters index
      base).fst_eq machine machine' w w'
  · intro parameters tolerance before
    have hrun := fun recording => run_withWorkers hc hs hs' parameters tolerance recording machine
      machine' w w'
    refine ⟨?_, ?_⟩
    · unfold probe
      rw [Action.fst_perform_bind_ofExcept, Action.fst_perform_bind_ofExcept, hrun false]
    · rw [fst_perform_probeInto, fst_perform_probeInto, hrun true]
      rfl
  · intro manifold hm parameters index base blocks k block scales hb hk hscales hne e observed site
    have he : ∀ trace, e.SameResiduals (.behind trace) e := fun trace =>
      .of_steady (Evaluator.traced_steady hc.1 trace)
    have hobserved : ∀ trace, ∀ m ∈ observed, m.Has (Action.Steady (.behind trace)) := by
      intro trace m hmem
      obtain ⟨original, horiginal, rfl⟩ := Option.map_eq_some_iff.1 hmem
      exact Manifold.beside_steady (hm original horiginal) trace
    obtain ⟨start, asked, hstart⟩ := exists_does fun trace =>
      baseResiduals_coupled (he trace) .rfl blocks base
    have hestimate := fun setting => estimate_eq (e := e) hb hk
      ((tangentScales_beside index.shown block manifold).trans hscales) hne
      (c.options.withWorkers setting) base
    refine ⟨start, asked, hstart, ?_, ?_⟩
    · rintro fault rfl setting
      rw [hestimate]
      exact hstart.bind_error
    · rintro residuals rfl
      have hcolumn : ∀ i, ∃ outcome : Except Fault (List α) × List (Event α),
          (site.columns c.options residuals scales i).Does Prod.snd outcome.1 outcome.2 := by
        intro i
        obtain ⟨answer, deeds, h⟩ := exists_does fun trace =>
          site.columns_coupled (he trace) (hobserved trace) c.options residuals scales i
        exact ⟨(answer, deeds), h⟩
      choose outcome houtcome using hcolumn
      refine ⟨outcome, fun i scale hscale => ?_, fun setting hs => ?_⟩
      · have h := houtcome i
        simp only [Site.columns, hscale] at h
        exact h
      · rw [hestimate]
        refine gathers_of_does hs hstart fun i _ => ?_
        rw [Site.columns_withWorkers]
        exact houtcome i

end Checker

/-- The residual `x₀ x₁`. -/
def product : Evaluator Unit Float where
  blockSizes := [.count 2]
  numResiduals := .count 1
  evaluate parameters request := Action.ofExcept do
    let entries ← parameters.mapM Supplied.entries
    match entries with
    | [[x, y]] => return some ⟨.vector [x * y], request.map fun _ => [.vector [y, x]]⟩
    | _ => throw .entryIndex

/-- The checker of a block that is free. -/
def productChecker : Checker Unit Float where
  evaluator := product
  spaces := [.plain (.count 2)]
  options := DiffOptions.standard
  cap := defaultCap

/-- A machine with eight processors that runs the tasks of a pool from the last to the first. -/
def reversingMachine : Machine where
  processors := some 8
  environment _ := none
  order n := (List.range n).reverse
  order_perm n := List.reverse_perm (List.range n)

theorem productChecker_settled : productChecker.Has fun _ a => a.Settled := by
  refine ⟨fun parameters request => .ofExcept _, fun space hs m hm => ?_⟩
  obtain rfl := List.mem_singleton.1 hs
  cases hm

theorem threads_unobservable_product :
    ((estimate product [.vector [2.0, 3.0]] (.count 0) none
        (DiffOptions.standard.withWorkers (.whole 1)) none).perform plainMachine ⟨(), [], []⟩).1 =
      ((estimate product [.vector [2.0, 3.0]] (.count 0) none
        (DiffOptions.standard.withWorkers (.whole 4)) none).perform reversingMachine
          ⟨(), [], []⟩).1 ∧
    ∃ asked, ∃ outcome : ℕ → Except Fault (List Float) × List (Event Float),
      ((estimate product.traced [.vector [2.0, 3.0]] (.count 0) none
        (DiffOptions.standard.withWorkers (.whole 4)) none).perform reversingMachine
          ⟨((), []), [], []⟩).2.shared.2 = asked ++ ((outcome 1).2 ++ (outcome 0).2) := by
  obtain ⟨hsame, hcolumns⟩ := Checker.threads_unobservable productChecker productChecker_settled
  refine ⟨(hsame (.whole 1) (.whole 4) ⟨1, rfl⟩ ⟨4, rfl⟩ plainMachine reversingMachine ⟨(), [], []⟩
    ⟨(), [], []⟩).1 none (fun _ hm => nomatch hm) _ _ _, ?_⟩
  obtain ⟨start, asked, hstart, -, hgathers⟩ := hcolumns none (fun _ hm => nomatch hm)
    [.vector [2.0, 3.0]] (.count 0) none [[2.0, 3.0]] 0 [2.0, 3.0] [Float.abs 2.0, Float.abs 3.0]
    rfl rfl rfl (by simp)
  -- extrapolation needs no residuals at the point
  obtain rfl : .ok [] = start := (hstart plainMachine ⟨((), []), [], []⟩).1
  obtain ⟨outcome, -, hgathers⟩ := hgathers [] rfl
  obtain ⟨workers, hworkers, hcalls⟩ := (hgathers (.whole 4) ⟨4, rfl⟩).calls reversingMachine
    ⟨((), []), [], []⟩
  obtain rfl : 2 = workers := Except.ok.inj hworkers
  have horder : reversingMachine.order [Float.abs 2.0, Float.abs 3.0].length = [1, 0] := rfl
  have hevaluator : productChecker.evaluator = product := rfl
  have hoptions : productChecker.options = DiffOptions.standard := rfl
  rw [if_pos (by decide), horder, List.nil_append, List.flatMap_cons, List.flatMap_singleton,
    hevaluator, hoptions, Option.map_none] at hcalls
  exact ⟨asked, outcome, hcalls⟩

end JacobianAudit
