/-
**What a probe inherits from the functions it calls.**

All that a probe does to the callers' state it does through the evaluator and the manifolds. What
holds of their actions, and of sequences of such actions, therefore holds of the probe. This module
goes once through all parts of a probe and says so for every property that sequences inherit, and
gives the two kinds of property that are needed: how a single run changes the callers' state, and
what two runs from related states have in common.

Main definitions:

* `JacobianAudit.Action.Chained` — a property that sequences inherit;
* `JacobianAudit.Action.Inherited` — one that messages, attempts and isolation leave alone, too;
* `JacobianAudit.Action.Moves` — how an action changes the callers' state;
* `JacobianAudit.Action.Respects` — from related states an action answers alike;
* `JacobianAudit.Action.Deterministic` — what an action answers does not depend on the world.

Main results:

* `JacobianAudit.Action.inherited_moves`, `JacobianAudit.Action.inherited_respects` — sequences
  inherit both;
* `JacobianAudit.estimate_chained`, `JacobianAudit.project_inherits` — numeric differentiation and
  projection;
* `JacobianAudit.Checker.run_inherits` — **a probe has every property that is inherited and that
  the evaluator and the manifolds have**.
-/

import JacobianAudit.Evaluator.Functions
import JacobianAudit.Probe.Checker
import JacobianAudit.Proofs.Runs

set_option autoImplicit false

namespace JacobianAudit

namespace Action

variable {σ : Type}

/-! ### Properties of actions -/

/-- A property of actions that holds of answers and faults and passes to sequences. -/
structure Chained (P : (β : Type) → Action σ β → Prop) : Prop where
  pure : ∀ {β : Type} (x : β), P β (pure x)
  throw : ∀ {β : Type} (fault : Fault), P β (throw fault)
  bind : ∀ {β γ : Type} {a : Action σ β} {f : β → Action σ γ},
    P β a → (∀ x, P γ (f x)) → P γ (a >>= f)

/-- A property of actions that holds of what needs no caller and passes to sequences. -/
structure Inherited (P : (β : Type) → Action σ β → Prop) : Prop where
  pure : ∀ {β : Type} (x : β), P β (pure x)
  throw : ∀ {β : Type} (fault : Fault), P β (throw fault)
  bind : ∀ {β γ : Type} {a : Action σ β} {f : β → Action σ γ},
    P β a → (∀ x, P γ (f x)) → P γ (a >>= f)
  read : P Machine read
  log : ∀ (level : Level) (text : String), P Unit (log level text)
  attempt : ∀ {β : Type} {a : Action σ β}, P β a → P (Except Fault β) a.attempt
  isolated : ∀ {β : Type} {a : Action σ β}, P β a → P β a.isolated

/-- How an action changes the callers' state, whatever it answers. -/
def Moves {β : Type} (r : σ → σ → Prop) (a : Action σ β) : Prop :=
  ∀ machine w, r w.shared (a.perform machine w).2.shared

/-- From related states an action answers alike, and it leaves related states. -/
def Respects {β : Type} (r : σ → σ → Prop) (a : Action σ β) : Prop :=
  ∀ machine w w', r w.shared w'.shared →
    (a.perform machine w).1 = (a.perform machine w').1 ∧
      r (a.perform machine w).2.shared (a.perform machine w').2.shared

/-- What the action answers does not depend on the world. -/
def Deterministic {β : Type} (a : Action σ β) : Prop :=
  ∀ machine w w', (a.perform machine w).1 = (a.perform machine w').1

theorem deterministic_iff_respects {β : Type} {a : Action σ β} :
    a.Deterministic ↔ a.Respects fun _ _ => True := by
  constructor
  · intro h machine w w' _
    exact ⟨h machine w w', trivial⟩
  · intro h machine w w'
    exact (h machine w w' trivial).1

/-- A run that answers is matched by one from every related state. -/
theorem Respects.perform {β : Type} {r : σ → σ → Prop} {a : Action σ β} (h : a.Respects r)
    {machine : Machine} {w w' w₁ : World σ} (hw : r w.shared w'.shared) {x : β}
    (ha : a.perform machine w = (.ok x, w₁)) :
    ∃ w₁', a.perform machine w' = (.ok x, w₁') ∧ r w₁.shared w₁'.shared := by
  obtain ⟨hanswer, hstate⟩ := h machine w w' hw
  rw [ha] at hanswer hstate
  exact ⟨_, eq_mk_of_fst hanswer.symm, hstate⟩

/-- Changes that can be made one after the other are inherited. -/
theorem inherited_moves {r : σ → σ → Prop} (refl : ∀ s, r s s)
    (trans : ∀ s t u, r s t → r t u → r s u) : Inherited fun _ a => Moves r a where
  pure _ _ w := refl w.shared
  throw _ _ w := refl w.shared
  bind := by
    intro β γ a f ha hf machine w
    have hfirst := ha machine w
    rw [perform_bind]
    rcases hp : a.perform machine w with ⟨fault | x, w₁⟩
    · rw [hp] at hfirst
      exact hfirst
    · rw [hp] at hfirst
      exact trans _ _ _ hfirst (hf x machine w₁)
  read _ w := refl w.shared
  log _ _ _ w := refl w.shared
  attempt := by
    intro β a ha machine w
    rw [perform_attempt]
    exact ha machine w
  isolated := by
    intro β a ha machine w
    rw [perform_isolated]
    exact ha machine w

/-- Whatever the relation of the states is, what two runs have in common is inherited. -/
theorem inherited_respects (r : σ → σ → Prop) : Inherited fun _ a => Respects r a where
  pure _ _ _ _ h := ⟨rfl, h⟩
  throw _ _ _ _ h := ⟨rfl, h⟩
  bind := by
    intro β γ a f ha hf machine w w' h
    obtain ⟨hanswer, hstate⟩ := ha machine w w' h
    rw [perform_bind, perform_bind]
    rcases hp : a.perform machine w with ⟨fault | x, w₁⟩ <;>
      rcases hp' : a.perform machine w' with ⟨fault' | x', w₁'⟩ <;>
      rw [hp, hp'] at hanswer hstate
    · exact ⟨congrArg Except.error (Except.error.inj hanswer), hstate⟩
    · cases hanswer
    · cases hanswer
    · -- both runs go on with the same answer
      obtain rfl := Except.ok.inj hanswer
      exact hf x machine w₁ w₁' hstate
  read _ _ _ h := ⟨rfl, h⟩
  log _ _ _ _ _ h := ⟨rfl, h⟩
  attempt := by
    intro β a ha machine w w' h
    rw [perform_attempt, perform_attempt]
    obtain ⟨hanswer, hstate⟩ := ha machine w w' h
    exact ⟨congrArg Except.ok hanswer, hstate⟩
  isolated := by
    intro β a ha machine w w' h
    rw [perform_isolated, perform_isolated]
    exact ha machine w w' h

/-- What an action answers from any world is inherited. -/
theorem inherited_deterministic : Inherited fun β (a : Action σ β) => a.Deterministic := by
  have hsame : (fun β (a : Action σ β) => a.Deterministic) =
      fun _ a => a.Respects fun _ _ => True := by
    funext β a
    exact propext deterministic_iff_respects
  rw [hsame]
  exact inherited_respects _

namespace Chained

variable {P : (β : Type) → Action σ β → Prop} (hP : Chained P) {β γ : Type}

include hP

theorem ofExcept (answer : Except Fault β) : P β (Action.ofExcept answer) := by
  cases answer with
  | error fault => exact hP.throw fault
  | ok x => exact hP.pure x

theorem map {a : Action σ β} (f : β → γ) (ha : P β a) : P γ (f <$> a) := by
  rw [map_eq_pure_bind]
  exact hP.bind ha fun x => hP.pure (f x)

theorem mapM {f : γ → Action σ β} {xs : List γ} (h : ∀ x ∈ xs, P β (f x)) :
    P (List β) (xs.mapM f) := by
  induction xs with
  | nil =>
      rw [List.mapM_nil]
      exact hP.pure []
  | cons x xs ih =>
      rw [List.mapM_cons]
      refine hP.bind (h x List.mem_cons_self) fun y => ?_
      exact hP.bind (ih fun z hz => h z (List.mem_cons_of_mem x hz)) fun ys => hP.pure (y :: ys)

end Chained

namespace Inherited

variable {P : (β : Type) → Action σ β → Prop} (hP : Inherited P) {β : Type}

include hP

theorem chained : Chained P := ⟨hP.pure, hP.throw, hP.bind⟩

theorem ofExcept (answer : Except Fault β) : P β (Action.ofExcept answer) :=
  hP.chained.ofExcept answer

end Inherited

end Action

variable {σ α β : Type} {P : (β : Type) → Action σ β → Prop}

/-! ### Running tasks -/

theorem Workers.mem_arrange {tasks : List (Action σ β)} {order : List ℕ} {p : ℕ × Action σ β}
    (h : p ∈ arrange tasks order) : p.2 ∈ tasks := by
  obtain ⟨i, _, hi⟩ := List.mem_filterMap.1 h
  obtain ⟨task, ht, rfl⟩ := Option.map_eq_some_iff.1 hi
  exact List.mem_of_getElem? ht

/-- Tasks inherit on a pool as they do one after the other, and in whatever order they are run. -/
theorem Workers.run_inherits (hP : Action.Inherited P) {setting : Setting}
    {tasks : List (Action σ β)} (h : ∀ task ∈ tasks, P β task) :
    P (List β) (Workers.run setting tasks) := by
  refine hP.bind hP.read fun machine => hP.bind (hP.ofExcept _) fun workers => ?_
  by_cases hw : 1 < workers
  · rw [if_pos hw]
    refine hP.bind (hP.chained.mapM fun task ht => ?_) fun answers => hP.ofExcept _
    have hisolated := hP.isolated (h task.2 (mem_arrange ht))
    exact hP.bind (hP.attempt hisolated) fun answer => hP.pure _
  · rw [if_neg hw]
    exact hP.chained.mapM h

/-! ### Differentiating a block -/

variable [Scalar α]

/-- The evaluator has the property at every point and request. -/
def Evaluator.Has (P : (β : Type) → Action σ β → Prop) (e : Evaluator σ α) : Prop :=
  ∀ parameters request, P _ (e.evaluate parameters request)

/-- Both functions have the property wherever they are called. -/
def Functions.Has (P : (β : Type) → Action σ β → Prop) (f : Functions σ α) : Prop :=
  (∀ parameters, P _ (f.function parameters)) ∧
    ∀ jacobian ∈ f.jacobian, ∀ parameters, P _ (jacobian parameters)

/-- The manifold has the property wherever it is asked. -/
def Manifold.Has (P : (β : Type) → Action σ β → Prop) (m : Manifold σ α) : Prop :=
  (∀ x delta, P _ (m.plus x delta)) ∧ ∀ x, P _ (m.plusJacobian x)

/-- The manifolds that come with the library call nobody. -/
theorem Manifold.has_of_not_custom (hP : Action.Chained P) {m : Manifold σ α}
    (h : ∀ custom, m ≠ .custom custom) : m.Has P := by
  cases m with
  | euclidean space => exact ⟨fun _ _ => hP.ofExcept _, fun _ => hP.ofExcept _⟩
  | subset space => exact ⟨fun _ _ => hP.ofExcept _, fun _ => hP.ofExcept _⟩
  | quaternion => exact ⟨fun _ _ => hP.ofExcept _, fun _ => hP.ofExcept _⟩
  | linear map => exact ⟨fun _ _ => hP.ofExcept _, fun _ => hP.pure _⟩
  | custom custom => exact absurd rfl (h custom)

namespace Functions

variable {f : Functions σ α}

theorem residuals_inherits (hP : Action.Inherited P) (hf : f.Has P)
    (parameters : List (Supplied α)) : P _ (f.residuals parameters) := by
  refine hP.bind (hf.1 parameters) fun values => ?_
  split
  · exact hP.pure _
  · refine hP.bind (hP.ofExcept _) fun residuals => ?_
    split
    · exact hP.pure _
    · exact hP.bind (hP.log _ _) fun _ => hP.pure _

theorem jacobians_inherits (hP : Action.Chained P) (hf : f.Has P)
    (parameters : List (Supplied α)) (mask : List Bool) : P _ (f.jacobians parameters mask) := by
  unfold jacobians
  cases hj : f.jacobian with
  | none => exact hP.throw _
  | some jacobian =>
      refine hP.bind (hf.2 jacobian hj parameters) fun answer => ?_
      cases answer with
      | none => exact hP.pure _
      | some full =>
          simp only []
          split
          · exact hP.bind (hP.ofExcept _) fun _ => hP.pure _
          · exact hP.throw _

/-- An evaluator inherits from the functions it is put together from. -/
theorem evaluate_inherits (hP : Action.Inherited P) (hf : f.Has P) : f.toEvaluator.Has P := by
  intro parameters request
  refine hP.bind (residuals_inherits hP hf parameters) fun found => ?_
  cases found with
  | none => exact hP.pure _
  | some residuals =>
      cases request with
      | none => exact hP.pure _
      | some mask =>
          simp only []
          split
          · refine hP.bind (jacobians_inherits hP.chained hf parameters mask) fun answer => ?_
            cases answer with
            | none => exact hP.pure _
            | some jacobians => exact hP.pure _
          · exact hP.pure _

end Functions

theorem Ridders.search_inherits (hP : Action.Chained P) {central : α → Action σ (Supplied α)}
    (h : ∀ step, P _ (central step)) (o : DiffOptions α) (levels : ℕ) (s : Search α) :
    P _ (search central o levels s) := by
  induction levels generalizing s with
  | zero => exact hP.pure s
  | succ levels ih =>
      unfold search
      refine hP.bind (h s.step) fun value => hP.bind (hP.ofExcept _) fun row => ?_
      cases s.newest with
      | none => exact ih _
      | some older =>
          refine hP.bind (hP.ofExcept _) fun c => ?_
          cases judge c (s.best.map (·.2)) with
          | steadier =>
              by_cases hc : Scalar.lt c o.riddersTolerance = true
              · simp only [if_pos hc]
                exact hP.pure _
              · simp only [if_neg hc]
                exact ih _
          | goOn => exact ih _
          | stop => exact hP.pure _

namespace Site

variable {site : Site σ α}

theorem moved_inherits (hP : Action.Chained P) (hm : ∀ m ∈ site.manifold, m.Has P) (i : ℕ)
    (step : α) : P _ (site.moved i step) := by
  unfold moved
  cases hsite : site.manifold with
  | none => exact hP.pure _
  | some m =>
      refine hP.bind ((hm m hsite).1 _ _) fun reply => ?_
      cases reply with
      | nothing => exact hP.throw _
      | _ =>
          refine hP.bind (hP.ofExcept _) fun entries => ?_
          split
          · exact hP.pure _
          · exact hP.throw _

theorem residuals_inherits (hP : Action.Chained P) (he : site.evaluator.Has P)
    (hm : ∀ m ∈ site.manifold, m.Has P) (i : ℕ) (step : α) : P _ (site.residuals i step) := by
  refine hP.bind (moved_inherits hP hm i step) fun block => hP.bind (he _ _) fun answer => ?_
  cases answer with
  | none => exact hP.throw _
  | some answer => exact hP.ofExcept _

/-- A column has what the residuals after steps have. -/
theorem column_chained (hP : Action.Chained P) {i : ℕ} (hres : ∀ step, P _ (site.residuals i step))
    (o : DiffOptions α) (base : List α) (scale : α) : P _ (site.column o base i scale) := by
  have hcentral : ∀ step, P _ (site.centralDifference i step) := fun step =>
    hP.bind (hres step) fun _ => hP.bind (hres (-step)) fun _ => hP.pure _
  unfold column
  cases o.scheme with
  | forward => exact hP.bind (hres _) fun _ => hP.pure _
  | central => exact hcentral _
  | ridders =>
      have hsearch := Ridders.search_inherits hP
        (fun step => hP.map Supplied.vector (hcentral step)) o o.riddersLevels
      exact hP.bind (hP.bind (hsearch _) fun s => hP.pure _) fun t => hP.pure _

theorem column_inherits (hP : Action.Chained P) (he : site.evaluator.Has P)
    (hm : ∀ m ∈ site.manifold, m.Has P) (o : DiffOptions α) (base : List α) (i : ℕ) (scale : α) :
    P _ (site.column o base i scale) :=
  column_chained hP (residuals_inherits hP he hm i) o base scale

end Site

/-- The numeric Jacobian of a block has what runs of tasks, the residuals it starts from and those
after steps have. -/
theorem estimate_chained (hP : Action.Chained P) {e : Evaluator σ α}
    {manifold : Option (Manifold σ α)} {o : DiffOptions α} {base : Option (Supplied α)}
    (hruns : ∀ tasks : List (Action σ (List α)), (∀ task ∈ tasks, P _ task) →
      P _ (Workers.run o.workers tasks))
    (hbase : ∀ blocks, P _ (baseResiduals e blocks o base))
    (hres : ∀ site : Site σ α, site.evaluator = e → site.manifold = manifold →
      ∀ i step, P _ (site.residuals i step))
    (parameters : List (Supplied α)) (index : Setting) :
    P _ (estimate e parameters index manifold o base) := by
  refine hP.bind (hP.ofExcept _) fun blocks => hP.bind (hP.ofExcept _) fun place =>
    hP.bind (hP.ofExcept _) fun scales => ?_
  split
  · exact hP.ofExcept _
  · refine hP.bind (hbase blocks) fun start => hP.bind (hP.ofExcept _) fun scales => ?_
    refine hP.bind (hruns _ ?_) fun columns => hP.bind (hP.ofExcept _) fun rows => hP.pure _
    intro task ht
    obtain ⟨p, _, rfl⟩ := List.mem_map.1 ht
    exact Site.column_chained hP (hres _ rfl rfl p.2) o start p.1

/-- The numeric Jacobian of a block. -/
theorem estimate_inherits (hP : Action.Inherited P) {e : Evaluator σ α} (he : e.Has P)
    {manifold : Option (Manifold σ α)} (hm : ∀ m ∈ manifold, m.Has P)
    (parameters : List (Supplied α)) (index : Setting) (o : DiffOptions α)
    (base : Option (Supplied α)) : P _ (estimate e parameters index manifold o base) := by
  refine estimate_chained hP.chained (fun _ => Workers.run_inherits hP) (fun blocks => ?_)
    (fun site hsite hmanifold i step => ?_) parameters index
  · unfold baseResiduals
    split
    · refine hP.bind (he _ _) fun answer => ?_
      cases answer with
      | none => exact hP.throw _
      | some answer => exact hP.ofExcept _
    · exact hP.ofExcept _
    · exact hP.pure _
  · subst hsite hmanifold
    exact Site.residuals_inherits hP.chained he hm i step

/-- The projection of a Jacobian. -/
theorem project_inherits (hP : Action.Chained P) {manifold : Option (Manifold σ α)}
    (hm : ∀ m ∈ manifold, m.Has P) (jacobian point : Supplied α) :
    P _ (project jacobian manifold point) := by
  refine hP.bind (hP.ofExcept _) fun j => ?_
  split
  · cases hman : manifold with
    | none => exact hP.pure _
    | some m =>
        simp only []
        split
        · refine hP.bind (hP.bind (hP.ofExcept _) fun x =>
            hP.bind ((hm m hman).2 _) fun reply => ?_) fun step => hP.pure _
          cases reply with
          | nothing => exact hP.throw _
          | _ => exact hP.ofExcept _
        · exact hP.throw _
  · exact hP.throw _

/-! ### Probes -/

namespace Checker

variable {c : Checker σ α}

/-- The evaluator and the manifolds of a checker have the property. -/
def Has (P : (β : Type) → Action σ β → Prop) (c : Checker σ α) : Prop :=
  c.evaluator.Has P ∧ ∀ space ∈ c.spaces, ∀ m ∈ space.manifold, m.Has P

theorem read_inherits (hP : Action.Inherited P) (he : c.evaluator.Has P)
    (blocks : List (List α)) : P _ (c.read blocks) := by
  refine hP.bind (he _ _) fun answer => ?_
  cases answer with
  | none => exact hP.pure _
  | some answer =>
      refine hP.bind (hP.ofExcept _) fun residuals => ?_
      cases answer.jacobians with
      | none => exact hP.throw _
      | some jacobians =>
          simp only []
          split
          · exact hP.bind (hP.ofExcept _) fun _ => hP.pure _
          · exact hP.throw _

theorem numeric_inherits (hP : Action.Inherited P) (he : c.evaluator.Has P)
    {space : BlockSpace σ α} (hm : ∀ m ∈ space.manifold, m.Has P) (blocks : List (List α))
    (residuals : List α) (recording : Bool) (k : ℕ) :
    P _ (c.numeric blocks residuals recording k space) := by
  refine hP.bind (estimate_inherits hP he hm _ _ _ _) fun tangent => ?_
  split
  · exact hP.pure _
  · split
    · exact hP.pure _
    · exact hP.bind (estimate_inherits hP he (by simp) _ _ _ _) fun _ => hP.pure _

theorem differentiate_inherits (hP : Action.Inherited P) (he : c.evaluator.Has P)
    {todo : List (ℕ × BlockSpace σ α × List α × Tensor α)}
    (hm : ∀ task ∈ todo, ∀ m ∈ task.2.1.manifold, m.Has P) (blocks : List (List α))
    (reading : Reading α) (recording : Bool) (progress : Progress α) :
    P _ (c.differentiate blocks reading recording todo progress) := by
  induction todo generalizing progress with
  | nil => exact hP.pure _
  | cons task rest ih =>
      obtain ⟨k, space, block, jacobian⟩ := task
      have hspace := hm _ List.mem_cons_self
      have hrest := ih fun task ht => hm task (List.mem_cons_of_mem _ ht)
      unfold differentiate
      refine hP.bind (hP.attempt (project_inherits hP.chained hspace _ _)) fun projected => ?_
      cases projected with
      | error fault => exact hP.pure _
      | ok tangent =>
          refine hP.bind (hP.attempt (numeric_inherits hP he hspace _ _ _ _)) fun derived => ?_
          cases derived with
          | error fault => exact hP.pure _
          | ok numeric => exact hrest _

theorem logComparison_inherits (hP : Action.Inherited P) (n : ℕ) (worst tolerance : α) :
    P _ (logComparison n worst tolerance : Action σ Unit) := by
  refine hP.bind (hP.log _ _) fun _ => ?_
  split
  · exact hP.log _ _
  · exact hP.pure _

theorem runAt_inherits (hP : Action.Inherited P) (hc : c.Has P) (blocks : List (List α))
    (tolerance : α) (recording : Bool) : P _ (c.runAt blocks tolerance recording) := by
  refine hP.bind (hP.attempt (read_inherits hP hc.1 blocks)) fun found => ?_
  cases found with
  | error fault => exact hP.pure _
  | ok found =>
      cases found with
      | none => exact hP.bind (hP.log _ _) fun _ => hP.pure _
      | some reading =>
          refine hP.bind (differentiate_inherits hP hc.1 ?_ _ _ _ _) fun done => ?_
          · intro task ht
            obtain ⟨p, hp, rfl⟩ := List.mem_map.1 ht
            have hzip := List.mem_zipIdx hp
            exact hc.2 _ (List.of_mem_zip (hzip.2.2 ▸ List.getElem_mem _)).1
          · obtain ⟨progress, _ | ⟨k, fault⟩⟩ := done
            · simp only []
              cases compare progress tolerance with
              | error fault => exact hP.pure _
              | ok comparisons =>
                  exact hP.bind (logComparison_inherits hP _ _ _) fun _ => hP.pure _
            · cases fault with
              | evaluation cause => exact hP.bind (hP.log _ _) fun _ => hP.pure _
              | _ => exact hP.pure _

/-- **A probe inherits** what the evaluator and the manifolds have in common. -/
theorem run_inherits (hP : Action.Inherited P) (hc : c.Has P) (parameters : List (Supplied α))
    (tolerance : α) (recording : Bool) : P _ (c.run parameters tolerance recording) := by
  unfold run
  split
  · exact hP.pure _
  · split
    · exact hP.pure _
    · simp only []
      split
      · exact hP.pure _
      · exact runAt_inherits hP hc _ _ _

end Checker

end JacobianAudit
