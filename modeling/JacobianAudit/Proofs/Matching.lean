/-
**Columns of two layouts.**

Of two evaluators that represent the same residuals in two layouts, each may still have faults of
its own. What can be said of a computation with the one and the same computation with the other is
that they do not contradict each other: two values are the same, and a value on one side leaves no
room for a failed evaluation on the other. This goes through sequences, so it is followed through
the schemes of numeric differentiation once.

Main definitions:

* `JacobianAudit.Compatible`, `JacobianAudit.Action.Matches` — answers that do not contradict each
  other, and two actions with such answers from all worlds;
* `JacobianAudit.Evaluator.Regrouped` — two evaluators of the same residuals and Jacobians in two
  layouts;
* `JacobianAudit.Evaluator.columnAt` — the column of a coordinate.

Main results:

* `JacobianAudit.Ridders.search_matches` — searches that are given matching differences;
* `JacobianAudit.Evaluator.Regrouped.columnAt` — **the columns of partners match**.
-/

import JacobianAudit.Proofs.Layouts

set_option autoImplicit false

namespace JacobianAudit

variable {σ σ' α β γ β' γ' : Type}

/-! ### Answers that do not contradict each other -/

/-- Two values are in a relation, and next to a value there is no failed evaluation. -/
inductive Compatible (r : β → γ → Prop) : Except Fault β → Except Fault γ → Prop
  | ok {x : β} {y : γ} : r x y → Compatible r (.ok x) (.ok y)
  | left (x : β) {fault : Fault} : ¬fault.IsEvaluation → Compatible r (.ok x) (.error fault)
  | right {fault : Fault} (y : γ) : ¬fault.IsEvaluation → Compatible r (.error fault) (.ok y)
  | faults (fault fault' : Fault) : Compatible r (.error fault) (.error fault')

/-- Two answers are the same but for the cause of a failed evaluation. -/
def SameButCause (x y : Except Fault β) : Prop :=
  x = y ∨ ∃ cause cause', x = .error (.evaluation cause) ∧ y = .error (.evaluation cause')

namespace Compatible

variable {r : β → γ → Prop} {x x' : Except Fault β} {y y' : Except Fault γ}

theorem flip (h : Compatible r x y) : Compatible (fun v u => r u v) y x := by
  cases h with
  | ok h => exact .ok h
  | left u hf => exact .right u hf
  | right v hf => exact .left v hf
  | faults f f' => exact .faults f' f

/-- The causes of failed evaluations do not matter. -/
theorem congr (h : Compatible r x y) (hx : SameButCause x' x) (hy : SameButCause y' y) :
    Compatible r x' y' := by
  have hleft : ∀ {x x' : Except Fault β} {y : Except Fault γ}, Compatible r x y →
      SameButCause x' x → Compatible r x' y := by
    intro x x' y h hx
    obtain rfl | ⟨cause, cause', rfl, rfl⟩ := hx
    · exact h
    · cases h with
      | right v hf => exact absurd ⟨cause', rfl⟩ hf
      | faults _ f => exact .faults _ f
  have hright := (hleft h hx).flip
  obtain rfl | ⟨cause, cause', rfl, rfl⟩ := hy
  · exact hright.flip
  · cases hright with
    | right v hf => exact absurd ⟨cause', rfl⟩ hf
    | faults _ f => exact .faults f _

end Compatible

namespace Action

variable {r : β → γ → Prop} {s : β' → γ' → Prop} {a : Action σ β} {b : Action σ' γ}

/-- On every machine, from whatever worlds, the answers do not contradict each other. -/
def Matches (r : β → γ → Prop) (a : Action σ β) (b : Action σ' γ) : Prop :=
  ∀ machine w w', Compatible r (a.perform machine w).1 (b.perform machine w').1

namespace Matches

theorem pure {x : β} {y : γ} (h : r x y) :
    (Pure.pure x : Action σ β).Matches r (Pure.pure y : Action σ' γ) :=
  fun _ _ _ => .ok h

theorem throw (fault fault' : Fault) :
    (MonadExcept.throw fault : Action σ β).Matches r
      (MonadExcept.throw fault' : Action σ' γ) :=
  fun _ _ _ => .faults fault fault'

theorem bind {f : β → Action σ β'} {g : γ → Action σ' γ'} (h : a.Matches r b)
    (hfg : ∀ x y, r x y → (f x).Matches s (g y)) : (a >>= f).Matches s (b >>= g) := by
  intro machine w w'
  rw [perform_bind, perform_bind]
  have hab := h machine w w'
  rcases ha : a.perform machine w with ⟨fault | x, w₁⟩ <;>
    rcases hb : b.perform machine w' with ⟨fault' | y, w₁'⟩ <;> rw [ha, hb] at hab
  · exact .faults fault fault'
  · -- only one of the sequences goes on
    cases hab with
    | right _ hf =>
        cases ((g y).perform machine w₁').1 with
        | error fault' => exact .faults fault fault'
        | ok z => exact .right z hf
  · cases hab with
    | left _ hf =>
        cases ((f x).perform machine w₁).1 with
        | error fault => exact .faults fault fault'
        | ok z => exact .left z hf
  · cases hab with
    | ok hxy => exact hfg x y hxy machine w₁ w₁'

theorem bind_eq {a : Action σ β} {b : Action σ' β} {f : β → Action σ β'} {g : β → Action σ' γ'}
    (h : a.Matches Eq b) (hfg : ∀ x, (f x).Matches s (g x)) : (a >>= f).Matches s (b >>= g) :=
  h.bind fun x _ hxy => hxy ▸ hfg x

theorem bind_pure {a : Action σ β} {b : Action σ' β} (h : a.Matches Eq b) (f : β → γ) :
    (a >>= fun x => Pure.pure (f x)).Matches Eq (b >>= fun x => Pure.pure (f x)) :=
  h.bind_eq fun _ => pure rfl

theorem ofExcept_bind {x : Except Fault β} {f : β → Action σ β'} {g : β → Action σ' γ'}
    (hfg : ∀ y, (f y).Matches s (g y)) :
    (Action.ofExcept x >>= f).Matches s (Action.ofExcept x >>= g) := by
  cases x with
  | error fault => exact throw fault fault
  | ok y => exact hfg y

end Matches

end Action

variable [Scalar α]

/-- A search decides by the differences that it asks for. -/
theorem Ridders.search_matches {central : α → Action σ (Supplied α)}
    {central' : α → Action σ' (Supplied α)} (h : ∀ step, (central step).Matches Eq (central' step))
    (o : DiffOptions α) (levels : ℕ) (s : Search α) :
    (search central o levels s).Matches Eq (search central' o levels s) := by
  induction levels generalizing s with
  | zero => exact .pure rfl
  | succ levels ih =>
      unfold search
      refine (h s.step).bind_eq fun value => .ofExcept_bind fun row => ?_
      cases s.newest with
      | none => exact ih _
      | some older =>
          refine .ofExcept_bind fun c => ?_
          cases judge c (s.best.map (·.2)) with
          | steadier =>
              by_cases hc : Scalar.lt c o.riddersTolerance = true
              · simp only [if_pos hc]
                exact .pure rfl
              · simp only [if_neg hc]
                exact ih _
          | goOn => exact ih _
          | stop => exact .pure rfl

/-! ### Evaluators in two layouts -/

/-- The residuals are the same, and so are the columns of partners. -/
structure Answer.Regrouped {sizes sizes' : List ℕ} (φ : Place sizes ≃ Place sizes') (rows : ℕ)
    (answer answer' : Answer α) : Prop where
  residuals : answer.residuals.entries = answer'.residuals.entries
  jacobians (js js' : List (Supplied α)) (matrices matrices' : List (List α)) :
    answer.jacobians = some js → answer'.jacobians = some js' →
    js.mapM Supplied.entries = .ok matrices → js'.mapM Supplied.entries = .ok matrices' →
    SameColumns φ rows matrices matrices'

/-- Two evaluators that represent the same residuals in two layouts, at all points that are near to
each other, and the same Jacobians. Where both have residuals these are the same, and where only one
has, the other has a fault of its own. -/
structure Evaluator.Regrouped {sizes sizes' : List ℕ} (near : α → α → Prop)
    (φ : Place sizes ≃ Place sizes') (rows : ℕ) (e : Evaluator σ α) (e' : Evaluator σ' α) :
    Prop where
  blockSizes : e.blockSizes = sizes.map .count
  blockSizes' : e'.blockSizes = sizes'.map .count
  numResiduals : e.numResiduals = .count rows
  numResiduals' : e'.numResiduals = .count rows
  residuals (blocks blocks' : List (List α)) : Rearranged near φ blocks blocks' →
    (residualsOnly e (blocks.map .vector)).Matches Eq (residualsOnly e' (blocks'.map .vector))
  answers (blocks blocks' : List (List α)) : Rearranged Eq φ blocks blocks' →
    ∀ machine w w' answer answer',
      ((e.evaluate (blocks.map .vector) (some (blocks.map fun _ => true))).perform machine
        w).1 = .ok answer →
      ((e'.evaluate (blocks'.map .vector) (some (blocks'.map fun _ => true))).perform machine
        w').1 = .ok answer' →
      Option.Rel (Answer.Regrouped φ rows) answer answer'

/-! ### Columns -/

/-- The place where a block is differentiated along its entries. -/
def Evaluator.siteAt (e : Evaluator σ α) (blocks : List (List α)) (k : ℕ) : Site σ α :=
  ⟨e, blocks, k, (Setting.count k).shown, blocks[k]?.getD [], none, (blocks[k]?.getD []).length⟩

/-- The column of a coordinate, from the residuals at the point. -/
def Evaluator.columnAt (e : Evaluator σ α) (o : DiffOptions α) (blocks : List (List α))
    (base : List α) (k i : ℕ) : Action σ (List α) :=
  (e.siteAt blocks k).columns o base ((blocks[k]?.getD []).map Scalar.abs) i

/-- The residuals after a step along an entry are those at the point that the step leads to. -/
theorem Site.residuals_sameButCause (e : Evaluator σ α) {blocks : List (List α)} {k : ℕ}
    {block : List α} (hblock : blocks[k]? = some block) (i : ℕ) (step : α) (machine : Machine)
    (w : World σ) :
    SameButCause (((e.siteAt blocks k).residuals i step).perform machine w).1
      ((residualsOnly e ((blocks.set k (stepped block i step)).map .vector)).perform machine
        w).1 := by
  have hmoved : (e.siteAt blocks k).moved i step = pure (stepped block i step) := by
    unfold moved Evaluator.siteAt
    rw [hblock]
    rfl
  unfold residuals residualsOnly
  rw [hmoved, pure_bind, Action.perform_bind, Action.perform_bind]
  have hindex : (e.siteAt blocks k).blocks.set (e.siteAt blocks k).index (stepped block i step) =
      blocks.set k (stepped block i step) := rfl
  have hevaluator : (e.siteAt blocks k).evaluator = e := rfl
  rw [hindex, hevaluator]
  rcases (e.evaluate ((blocks.set k (stepped block i step)).map .vector) none).perform machine w
    with ⟨fault | _ | answer, w₁⟩
  · exact .inl rfl
  · exact .inr ⟨_, _, rfl, rfl⟩
  · exact .inl rfl

namespace Evaluator.Regrouped

variable {sizes sizes' : List ℕ} {near : α → α → Prop} {φ : Place sizes ≃ Place sizes'} {rows : ℕ}
  {e : Evaluator σ α} {e' : Evaluator σ' α} {blocks blocks' : List (List α)}

variable (h : e.Regrouped near φ rows e') (hpoint : Rearranged Eq φ blocks blocks')
  (hrefl : ∀ x, near x x) (hzero : Unnoticed near blocks)

include h hpoint hrefl hzero

theorem residuals_matches (p : Place sizes) (step : α) :
    ((e.siteAt blocks p.1).residuals p.2 step).Matches Eq
      ((e'.siteAt blocks' (φ p).1).residuals (φ p).2 step) := by
  intro machine w w'
  obtain ⟨block, -, hblock, -⟩ := p.exists_entry hpoint.lengths
  obtain ⟨block', -, hblock', -⟩ := (φ p).exists_entry hpoint.lengths'
  have hmoved := hpoint.moved hrefl hzero hblock hblock' step
  exact (h.residuals _ _ hmoved machine w w').congr
    (Site.residuals_sameButCause e hblock p.2 step machine w)
    (Site.residuals_sameButCause e' hblock' (φ p).2 step machine w')

theorem centralDifference_matches (p : Place sizes) (step : α) :
    ((e.siteAt blocks p.1).centralDifference p.2 step).Matches Eq
      ((e'.siteAt blocks' (φ p).1).centralDifference (φ p).2 step) :=
  (h.residuals_matches hpoint hrefl hzero p step).bind_eq fun _ =>
    (h.residuals_matches hpoint hrefl hzero p (-step)).bind_pure _

/-- **The columns of partners match.** -/
theorem columnAt (o : DiffOptions α) (base : List α) (p : Place sizes) :
    (e.columnAt o blocks base p.1 p.2).Matches Eq
      (e'.columnAt o blocks' base (φ p).1 (φ p).2) := by
  obtain ⟨block, x, hblock, -, hx, hvalue⟩ := p.exists_entry hpoint.lengths
  obtain ⟨block', x', hblock', -, hx', hvalue'⟩ := (φ p).exists_entry hpoint.lengths'
  obtain rfl : x = x' := hpoint.entries p x x' hvalue hvalue'
  unfold Evaluator.columnAt Site.columns
  simp only [hblock, hblock', Option.getD_some, List.getElem?_map, hx, hx', Option.map_some]
  unfold Site.column
  cases o.scheme with
  | forward => exact (h.residuals_matches hpoint hrefl hzero p _).bind_pure _
  | central => exact h.centralDifference_matches hpoint hrefl hzero p _
  | ridders =>
      have hsearch := Ridders.search_matches (fun step =>
        (h.centralDifference_matches hpoint hrefl hzero p step).bind_pure Supplied.vector) o
        o.riddersLevels
      exact ((hsearch _).bind_pure Ridders.Search.answer).bind_pure Tensor.data

end Evaluator.Regrouped

end JacobianAudit
