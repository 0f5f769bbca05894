/-
**Two runs side by side.**

To say what a computation does not depend on is to compare two runs of it. A coupling fixes on which
pairs of machines and from which pairs of callers' states the two runs may start; the two actions
are coupled if they then answer alike and leave such a pair of states again. This goes through
sequences, so it is followed through numeric differentiation and projection once, for two evaluators
whose residuals are coupled.

Main definitions:

* `JacobianAudit.Alike`, `JacobianAudit.PlaceByPlace` — the same fault, or values in a relation, and
  lists whose items are in a relation of their place;
* `JacobianAudit.Coupling`, `JacobianAudit.Action.Coupled` — pairs of starts, and two actions that
  answer alike from all of them;
* `JacobianAudit.Coupling.SameRuns` — two settings of the workers that make no difference;
* `JacobianAudit.Evaluator.SameResiduals` — two evaluators that answer alike where only residuals
  are requested.

Main results:

* `JacobianAudit.Coupling.sameRuns_of_eq` — on one machine, a setting makes no difference to
  itself;
* `JacobianAudit.Site.column_coupled` — a column of the Jacobian;
* `JacobianAudit.estimate_coupled_of_base`, `JacobianAudit.estimate_coupled` — **the numeric
  Jacobian of a block**;
* `JacobianAudit.stepJacobian_coupled` — the derivative of a manifold's step.
-/

import JacobianAudit.Proofs.Frames

set_option autoImplicit false

namespace JacobianAudit

/-- The same fault, or values in a relation. -/
inductive Alike {β γ : Type} (r : β → γ → Prop) : Except Fault β → Except Fault γ → Prop
  | ok {x : β} {y : γ} : r x y → Alike r (.ok x) (.ok y)
  | error (fault : Fault) : Alike r (.error fault) (.error fault)

namespace Alike

variable {β γ β' γ' : Type} {r : β → γ → Prop} {r' : β' → γ' → Prop}

theorem rfl {x : Except Fault β} : Alike Eq x x := by
  cases x with
  | error fault => exact .error fault
  | ok x => exact .ok (Eq.refl x)

theorem eq {x y : Except Fault β} (h : Alike Eq x y) : x = y := by
  cases h with
  | ok h => rw [h]
  | error fault => exact Eq.refl _

theorem mono {s : β → γ → Prop} {x : Except Fault β} {y : Except Fault γ} (h : Alike r x y)
    (hrs : ∀ x y, r x y → s x y) : Alike s x y := by
  cases h with
  | ok h => exact .ok (hrs _ _ h)
  | error fault => exact .error fault

theorem bind {x : Except Fault β} {y : Except Fault γ} {f : β → Except Fault β'}
    {g : γ → Except Fault γ'} (h : Alike r x y) (hfg : ∀ x y, r x y → Alike r' (f x) (g y)) :
    Alike r' (x >>= f) (y >>= g) := by
  cases h with
  | ok h => exact hfg _ _ h
  | error fault => exact .error fault

theorem map {x : Except Fault β} {y : Except Fault γ} {f : β → β'} {g : γ → γ'} (h : Alike r x y)
    (hfg : ∀ x y, r x y → r' (f x) (g y)) : Alike r' (x.map f) (y.map g) := by
  cases h with
  | ok h => exact .ok (hfg _ _ h)
  | error fault => exact .error fault

/-- What holds of each of the two values holds of both. -/
theorem and {x : Except Fault β} {y : Except Fault γ} (h : Alike r x y) {P : β → Prop}
    {Q : γ → Prop} (hx : ∀ u, x = .ok u → P u) (hy : ∀ v, y = .ok v → Q v) :
    Alike (fun u v => r u v ∧ P u ∧ Q v) x y := by
  cases h with
  | ok h => exact .ok ⟨h, hx _ (Eq.refl _), hy _ (Eq.refl _)⟩
  | error fault => exact .error fault

/-- Two continuations of the same answer. -/
theorem bind_same {x : Except Fault β} {f : β → Except Fault β'} {g : β → Except Fault γ'}
    (hfg : ∀ y, Alike r' (f y) (g y)) : Alike r' (x >>= f) (x >>= g) :=
  rfl.bind fun y _ hy => hy ▸ hfg y

end Alike

/-- Lists of one length whose items are, place by place, in the relation of that place. -/
structure PlaceByPlace {β γ : Type} (r : ℕ → β → γ → Prop) (xs : List β) (ys : List γ) : Prop where
  length_eq : xs.length = ys.length
  item (k : ℕ) (x : β) (y : γ) : xs[k]? = some x → ys[k]? = some y → r k x y

namespace PlaceByPlace

variable {β γ β' γ' : Type} {r : ℕ → β → γ → Prop} {r' : ℕ → β' → γ' → Prop}

theorem nil : PlaceByPlace r [] [] := ⟨rfl, fun _ _ _ hx => nomatch hx⟩

theorem cons {x : β} {y : γ} {xs : List β} {ys : List γ} (h : r 0 x y)
    (hrest : PlaceByPlace (fun k => r (k + 1)) xs ys) : PlaceByPlace r (x :: xs) (y :: ys) := by
  refine ⟨congrArg (· + 1) hrest.length_eq, fun k => ?_⟩
  cases k with
  | zero =>
      rintro _ _ hx hy
      obtain rfl := Option.some.inj hx
      obtain rfl := Option.some.inj hy
      exact h
  | succ k => exact hrest.item k

/-- Lists of questions that are alike place by place. -/
theorem mapM {f : β → Except Fault β'} {g : γ → Except Fault γ'} {xs : List β} {ys : List γ}
    (h : PlaceByPlace (fun k x y => Alike (r' k) (f x) (g y)) xs ys) :
    Alike (PlaceByPlace r') (xs.mapM f) (ys.mapM g) := by
  induction xs generalizing ys r' with
  | nil =>
      obtain rfl := List.length_eq_zero_iff.1 h.length_eq.symm
      exact .ok nil
  | cons x xs ih =>
      cases ys with
      | nil => cases h.length_eq
      | cons y ys =>
          rw [List.mapM_cons, List.mapM_cons]
          have hrest : Alike (PlaceByPlace fun k => r' (k + 1)) (xs.mapM f) (ys.mapM g) :=
            ih ⟨Nat.succ.inj h.length_eq, fun k => h.item (k + 1)⟩
          exact (h.item 0 x y rfl rfl).bind fun u v huv => hrest.bind fun us vs huvs =>
            .ok (cons huv huvs)

/-- Where the relation is the same at all places. -/
theorem iff_forall₂ {r : β → γ → Prop} {xs : List β} {ys : List γ} :
    PlaceByPlace (fun _ => r) xs ys ↔ List.Forall₂ r xs ys := by
  rw [List.forall₂_iff_get]
  constructor
  · rintro ⟨hlength, hitem⟩
    exact ⟨hlength, fun k hk hk' => hitem k _ _ (List.getElem?_eq_getElem hk)
      (List.getElem?_eq_getElem hk')⟩
  · rintro ⟨hlength, hitem⟩
    refine ⟨hlength, fun k x y hx hy => ?_⟩
    obtain ⟨hk, rfl⟩ := List.getElem?_eq_some_iff.1 hx
    obtain ⟨hk', rfl⟩ := List.getElem?_eq_some_iff.1 hy
    exact hitem k hk hk'

end PlaceByPlace

/-- Lists of questions that are alike one by one. -/
theorem Alike.mapM {β γ β' γ' : Type} {r : β' → γ' → Prop} {f : β → Except Fault β'}
    {g : γ → Except Fault γ'} {xs : List β} {ys : List γ}
    (h : List.Forall₂ (fun x y => Alike r (f x) (g y)) xs ys) :
    Alike (List.Forall₂ r) (xs.mapM f) (ys.mapM g) :=
  (PlaceByPlace.iff_forall₂.2 h).mapM.mono fun _ _ => PlaceByPlace.iff_forall₂.1

/-- The pairs of machines and of callers' states from which two runs are compared. -/
structure Coupling (σ : Type) where
  machines : Machine → Machine → Prop
  states : σ → σ → Prop

namespace Action

variable {σ β γ β' γ' : Type} {p : Coupling σ} {r : β → γ → Prop} {r' : β' → γ' → Prop}

/-- From every such pair of starts the two actions answer alike, and they leave such a pair of
states. -/
def Coupled (p : Coupling σ) (r : β → γ → Prop) (a : Action σ β) (b : Action σ γ) : Prop :=
  ∀ machine machine' w w', p.machines machine machine' → p.states w.shared w'.shared →
    Alike r (a.perform machine w).1 (b.perform machine' w').1 ∧
      p.states (a.perform machine w).2.shared (b.perform machine' w').2.shared

/-- The action is coupled with itself. -/
def Steady (p : Coupling σ) (β : Type) (a : Action σ β) : Prop := a.Coupled p Eq a

namespace Coupled

theorem pure {x : β} {y : γ} (h : r x y) :
    (Pure.pure x : Action σ β).Coupled p r (Pure.pure y) :=
  fun _ _ _ _ _ hw => ⟨.ok h, hw⟩

theorem throw (fault : Fault) :
    (MonadExcept.throw fault : Action σ β).Coupled p r (MonadExcept.throw fault : Action σ γ) :=
  fun _ _ _ _ _ hw => ⟨.error fault, hw⟩

theorem ofExcept {x : Except Fault β} {y : Except Fault γ} (h : Alike r x y) :
    (Action.ofExcept x : Action σ β).Coupled p r (Action.ofExcept y) := by
  intro machine machine' w w' _ hw
  rw [perform_ofExcept, perform_ofExcept]
  exact ⟨h, hw⟩

theorem mono {s : β → γ → Prop} {a : Action σ β} {b : Action σ γ} (h : a.Coupled p r b)
    (hrs : ∀ x y, r x y → s x y) : a.Coupled p s b := by
  intro machine machine' w w' hm hw
  obtain ⟨halike, hstate⟩ := h machine machine' w w' hm hw
  exact ⟨halike.mono hrs, hstate⟩

/-- Two sequences are coupled if their first parts are, and their second parts after alike
answers. -/
theorem bind {a : Action σ β} {b : Action σ γ} {f : β → Action σ β'} {g : γ → Action σ γ'}
    (h : a.Coupled p r b) (hfg : ∀ x y, r x y → (f x).Coupled p r' (g y)) :
    (a >>= f).Coupled p r' (b >>= g) := by
  intro machine machine' w w' hm hw
  obtain ⟨halike, hstate⟩ := h machine machine' w w' hm hw
  rw [perform_bind, perform_bind]
  rcases ha : a.perform machine w with ⟨answer, w₁⟩
  rcases hb : b.perform machine' w' with ⟨answer', w₁'⟩
  rw [ha, hb] at halike hstate
  cases halike with
  | ok hr => exact hfg _ _ hr machine machine' w₁ w₁' hm hstate
  | error fault => exact ⟨.error fault, hstate⟩

/-- Two sequences whose first parts answer the same. -/
theorem bind_eq {a b : Action σ β} {f : β → Action σ β'} {g : β → Action σ γ'}
    (h : a.Coupled p Eq b) (hfg : ∀ x, (f x).Coupled p r' (g x)) :
    (a >>= f).Coupled p r' (b >>= g) :=
  h.bind fun x _ hxy => hxy ▸ hfg x

/-- What is made of the same answer is the same. -/
theorem bind_pure {a b : Action σ β} (h : a.Coupled p Eq b) (f : β → γ) :
    (a >>= fun x => Pure.pure (f x)).Coupled p Eq (b >>= fun x => Pure.pure (f x)) :=
  h.bind_eq fun _ => pure rfl

/-- Two sequences with the same pure first part. -/
theorem ofExcept_bind {x : Except Fault β} {f : β → Action σ β'} {g : β → Action σ γ'}
    (hfg : ∀ y, x = .ok y → (f y).Coupled p r' (g y)) :
    (Action.ofExcept x >>= f).Coupled p r' (Action.ofExcept x >>= g) := by
  cases x with
  | error fault => exact throw fault
  | ok y => exact hfg y rfl

/-- Coupled actions of which the first answers with nothing but what has a property. -/
theorem and_left {a : Action σ β} {b : Action σ γ} (h : a.Coupled p r b) {P : β → Prop}
    (hP : ∀ machine w x w', a.perform machine w = (.ok x, w') → P x) :
    a.Coupled p (fun x y => r x y ∧ P x) b := by
  intro machine machine' w w' hm hw
  obtain ⟨halike, hstate⟩ := h machine machine' w w' hm hw
  have hboth := halike.and (Q := fun _ => True)
    (fun x hx => hP machine w x _ (Prod.ext hx rfl)) fun _ _ => trivial
  exact ⟨hboth.mono fun x y hxy => ⟨hxy.1, hxy.2.1⟩, hstate⟩

theorem attempt {a : Action σ β} {b : Action σ γ} (h : a.Coupled p r b) :
    a.attempt.Coupled p (Alike r) b.attempt := by
  intro machine machine' w w' hm hw
  rw [perform_attempt, perform_attempt]
  obtain ⟨halike, hstate⟩ := h machine machine' w w' hm hw
  exact ⟨.ok halike, hstate⟩

theorem isolated {a : Action σ β} {b : Action σ γ} (h : a.Coupled p r b) :
    a.isolated.Coupled p r b.isolated := by
  intro machine machine' w w' hm hw
  rw [perform_isolated, perform_isolated]
  exact h machine machine' w w' hm hw

/-- Questions that are coupled one by one. -/
theorem mapM {ι κ : Type} {f : ι → Action σ β} {g : κ → Action σ β} {xs : List ι} {ys : List κ}
    (h : List.Forall₂ (fun x y => (f x).Coupled p Eq (g y)) xs ys) :
    (xs.mapM f).Coupled p Eq (ys.mapM g) := by
  induction h with
  | nil => exact pure rfl
  | cons hxy _ ih =>
      rw [List.mapM_cons, List.mapM_cons]
      exact hxy.bind_eq fun x => ih.bind_pure (x :: ·)

end Coupled

end Action

/-! ### Running tasks -/

section Tasks

variable {σ β : Type} {p : Coupling σ} {tasks tasks' : List (Action σ β)}

/-- Tasks that are coupled one by one have coupled runs, with the one number of workers and with the
other. -/
def Coupling.SameRuns (p : Coupling σ) (setting setting' : Setting) : Prop :=
  ∀ {β : Type} (tasks tasks' : List (Action σ β)),
    List.Forall₂ (Action.Coupled p Eq) tasks tasks' →
      (Workers.run setting tasks).Coupled p Eq (Workers.run setting' tasks')

/-- Runs on one machine, from states in a relation. -/
def Coupling.oneMachine (states : σ → σ → Prop) : Coupling σ := ⟨Eq, states⟩

/-- Tasks that are coupled one by one are so in any order. Induction on the order. -/
theorem Workers.arrange_coupled (h : List.Forall₂ (Action.Coupled p Eq) tasks tasks')
    (order : List ℕ) :
    List.Forall₂ (fun task task' => task.1 = task'.1 ∧ task.2.Coupled p Eq task'.2)
      (arrange tasks order) (arrange tasks' order) := by
  unfold arrange
  induction order with
  | nil => exact .nil
  | cons i order ih =>
      by_cases hi : i < tasks.length
      · have hi' : i < tasks'.length := h.length_eq ▸ hi
        simp only [List.filterMap_cons, List.getElem?_eq_getElem hi, List.getElem?_eq_getElem hi',
          Option.map_some]
        exact .cons ⟨rfl, h.get hi hi'⟩ ih
      · have hi' : ¬i < tasks'.length := h.length_eq ▸ hi
        simpa only [List.filterMap_cons, List.getElem?_eq_none (Nat.not_lt.1 hi),
          List.getElem?_eq_none (Nat.not_lt.1 hi'), Option.map_none] using ih

/-- **On one machine the tasks are run in the same order**, so the states stay related. -/
theorem Coupling.sameRuns_of_eq
    (hp : ∀ machine machine', p.machines machine machine' → machine = machine')
    (setting : Setting) : p.SameRuns setting setting := by
  intro β tasks tasks' htasks machine machine' w w' hmachine hw
  obtain rfl := hp machine machine' hmachine
  unfold Workers.run
  rw [Action.perform_read_bind, Action.perform_read_bind, ← htasks.length_eq]
  refine Action.Coupled.ofExcept_bind (fun workers _ => ?_) machine machine w w' hmachine hw
  split
  · refine Action.Coupled.bind_eq (.mapM ?_) fun answers => .ofExcept .rfl
    refine (Workers.arrange_coupled htasks (machine.order tasks.length)).imp fun task task' h => ?_
    rw [h.1]
    have hattempt := h.2.isolated.attempt.mono fun _ _ => Alike.eq
    exact hattempt.bind_pure fun answer => (task'.1, answer)
  · exact .mapM htasks

theorem Coupling.sameRuns_oneMachine (states : σ → σ → Prop) (setting : Setting) :
    (oneMachine states).SameRuns setting setting :=
  sameRuns_of_eq (fun _ _ h => h) setting

end Tasks

variable {σ α : Type} [Scalar α] {p : Coupling σ}

/-! ### Searches -/

/-- A search asks for central differences, and decides by the answers. It looks at the settings of
extrapolation only. -/
theorem Ridders.search_coupled {central central' : α → Action σ (Supplied α)}
    (h : ∀ step, (central step).Coupled p Eq (central' step)) {o o' : DiffOptions α}
    (hshrink : o.riddersShrink = o'.riddersShrink)
    (htolerance : o.riddersTolerance = o'.riddersTolerance) (levels : ℕ) (s : Search α) :
    (search central o levels s).Coupled p Eq (search central' o' levels s) := by
  induction levels generalizing s with
  | zero => exact .pure rfl
  | succ levels ih =>
      unfold search
      rw [hshrink, htolerance]
      refine (h s.step).bind_eq fun value => ?_
      refine .ofExcept_bind fun row _ => ?_
      cases s.newest with
      | none => exact ih _
      | some older =>
          refine .ofExcept_bind fun c _ => ?_
          cases judge c (s.best.map (·.2)) with
          | steadier =>
              by_cases hc : Scalar.lt c o'.riddersTolerance = true
              · simp only [if_pos hc]
                exact .pure rfl
              · simp only [if_neg hc]
                exact ih _
          | goOn => exact ih _
          | stop => exact .pure rfl

/-! ### Differentiating a block -/

/-- Two evaluators of the same sizes whose residuals are coupled. -/
structure Evaluator.SameResiduals (p : Coupling σ) (e e' : Evaluator σ α) : Prop where
  blockSizes : e.blockSizes = e'.blockSizes
  numResiduals : e.numResiduals = e'.numResiduals
  evaluate (parameters : List (Supplied α)) : (e.evaluate parameters none).Coupled p
    (Option.Rel fun a a' => a.residuals = a'.residuals) (e'.evaluate parameters none)

/-- Two settings differ in the number of workers at most. -/
structure DiffOptions.SameMethod (o o' : DiffOptions α) : Prop where
  scheme : o.scheme = o'.scheme
  stepSize : o.stepSize = o'.stepSize
  riddersLevels : o.riddersLevels = o'.riddersLevels
  riddersTolerance : o.riddersTolerance = o'.riddersTolerance
  riddersShrink : o.riddersShrink = o'.riddersShrink

theorem DiffOptions.SameMethod.rfl {o : DiffOptions α} : o.SameMethod o :=
  ⟨Eq.refl _, Eq.refl _, Eq.refl _, Eq.refl _, Eq.refl _⟩

namespace Site

variable {site : Site σ α} {e' : Evaluator σ α}

/-- A step along a tangent coordinate. -/
theorem moved_coupled (hm : ∀ m ∈ site.manifold, m.Has (Action.Steady p)) (i : ℕ) (step : α) :
    (site.moved i step).Coupled p Eq (site.moved i step) := by
  unfold moved
  cases hsite : site.manifold with
  | none => exact .pure rfl
  | some m =>
      refine ((hm m hsite).1 _ _).bind_eq fun reply => ?_
      cases reply with
      | nothing => exact .throw _
      | _ =>
          refine .ofExcept_bind fun entries _ => ?_
          split
          · exact .pure rfl
          · exact .throw _

variable (he : site.evaluator.SameResiduals p e')
  (hm : ∀ m ∈ site.manifold, m.Has (Action.Steady p))

include he hm

/-- The residuals after a step. -/
theorem residuals_coupled (i : ℕ) (step : α) :
    (site.residuals i step).Coupled p Eq
      ({ site with evaluator := e' }.residuals i step) := by
  refine (moved_coupled hm i step).bind_eq fun block => ?_
  refine (he.evaluate _).bind fun answer answer' hanswer => ?_
  cases hanswer with
  | none => exact .throw _
  | some h =>
      show (Action.ofExcept _).Coupled p Eq (Action.ofExcept _)
      rw [h, he.numResiduals]
      exact .ofExcept .rfl

/-- The central difference. -/
theorem centralDifference_coupled (i : ℕ) (step : α) :
    (site.centralDifference i step).Coupled p Eq
      ({ site with evaluator := e' }.centralDifference i step) := by
  exact (residuals_coupled he hm i step).bind_eq fun ahead =>
    (residuals_coupled he hm i (-step)).bind_pure _

/-- **A column of the Jacobian.** -/
theorem column_coupled {o o' : DiffOptions α} (ho : o.SameMethod o') (base : List α) (i : ℕ)
    (scale : α) :
    (site.column o base i scale).Coupled p Eq
      ({ site with evaluator := e' }.column o' base i scale) := by
  unfold column
  rw [ho.scheme, ho.stepSize]
  cases o'.scheme with
  | forward =>
      exact (residuals_coupled he hm i _).bind_pure _
  | central => exact centralDifference_coupled he hm i _
  | ridders =>
      unfold Ridders.derivative
      rw [ho.riddersLevels]
      have hsearch := Ridders.search_coupled
        (fun step => (centralDifference_coupled he hm i step).bind_pure Supplied.vector)
        ho.riddersShrink ho.riddersTolerance o'.riddersLevels
      exact ((hsearch _).bind_pure Ridders.Search.answer).bind_pure Tensor.data

end Site

/-- The residuals that forward differences start from. -/
theorem baseResiduals_coupled {e e' : Evaluator σ α} (he : e.SameResiduals p e')
    {o o' : DiffOptions α} (ho : o.SameMethod o') (blocks : List (List α))
    (given : Option (Supplied α)) :
    (baseResiduals e blocks o given).Coupled p Eq (baseResiduals e' blocks o' given) := by
  unfold baseResiduals
  rw [ho.scheme]
  cases o'.scheme with
  | forward =>
      cases given with
      | none =>
          refine (he.evaluate _).bind fun answer answer' hanswer => ?_
          cases hanswer with
          | none => exact .throw _
          | some h =>
              show (Action.ofExcept _).Coupled p Eq (Action.ofExcept _)
              rw [h, he.numResiduals]
              exact .ofExcept .rfl
      | some base =>
          simp only []
          rw [he.numResiduals]
          exact .ofExcept .rfl
  | _ => exact .pure rfl

/-- The numeric Jacobian of a block of the same blocks, from base residuals that are coupled. -/
theorem estimate_coupled_of_base {e e' : Evaluator σ α} (he : e.SameResiduals p e')
    {manifold : Option (Manifold σ α)} (hm : ∀ m ∈ manifold, m.Has (Action.Steady p))
    {o o' : DiffOptions α} (ho : o.SameMethod o') (hruns : p.SameRuns o.workers o'.workers)
    {parameters parameters' : List (Supplied α)} {base base' : Option (Supplied α)}
    (hblocks : readBlocks parameters e'.blockSizes = readBlocks parameters' e'.blockSizes)
    (hbase : ∀ blocks, readBlocks parameters' e'.blockSizes = .ok blocks →
      (baseResiduals e blocks o base).Coupled p Eq (baseResiduals e' blocks o' base'))
    (index : Setting) :
    (estimate e parameters index manifold o base).Coupled p Eq
      (estimate e' parameters' index manifold o' base') := by
  unfold estimate
  rw [he.blockSizes, he.numResiduals, hblocks]
  refine .ofExcept_bind fun blocks hread => .ofExcept_bind fun place _ => ?_
  refine .ofExcept_bind fun scales _ => ?_
  split
  · exact .ofExcept .rfl
  · refine (hbase blocks hread).bind_eq fun start => ?_
    refine .ofExcept_bind fun scales _ => ?_
    refine (hruns _ _ ?_).bind_eq fun columns => .ofExcept_bind fun rows _ => .pure rfl
    · rw [List.forall₂_map_left_iff, List.forall₂_map_right_iff, List.forall₂_same]
      intro q _
      exact Site.column_coupled he hm ho start q.2 q.1

/-- **The numeric Jacobian of a block.** -/
theorem estimate_coupled {e e' : Evaluator σ α} (he : e.SameResiduals p e')
    {manifold : Option (Manifold σ α)} (hm : ∀ m ∈ manifold, m.Has (Action.Steady p))
    {o o' : DiffOptions α} (ho : o.SameMethod o') (hruns : p.SameRuns o.workers o'.workers)
    (parameters : List (Supplied α)) (index : Setting) (base : Option (Supplied α)) :
    (estimate e parameters index manifold o base).Coupled p Eq
      (estimate e' parameters index manifold o' base) :=
  estimate_coupled_of_base he hm ho hruns rfl
    (fun blocks _ => baseResiduals_coupled he ho blocks base) index

/-! ### Projecting a Jacobian -/

/-- The derivative of a manifold's step. -/
theorem stepJacobian_coupled {m : Manifold σ α} (hm : m.Has (Action.Steady p))
    (point : Supplied α) :
    (stepJacobian m point).Coupled p Eq (stepJacobian m point) := by
  refine .ofExcept_bind fun x _ => (hm.2 _).bind_eq fun reply => ?_
  cases reply with
  | nothing => exact .throw _
  | _ => exact .ofExcept .rfl

end JacobianAudit
