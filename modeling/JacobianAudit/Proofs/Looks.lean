/-
**Where a column looks.**

Numeric differentiation calls the evaluator at points of its own choosing. This module says which
these are for one column of the Jacobian, in which order they come, and where the series of them
breaks off, for evaluators and manifolds that may answer anything and keep a state of their own.

A look is one call of the evaluator, after the block was moved by a step along the tangent
coordinate of the column. Whether there is enough for the column is decided by what has been seen:
by one look for a forward difference and two for a central one, and otherwise by the rule that
`JacobianAudit.Ridders.StopsAfter` is about.

Main definitions:

* `JacobianAudit.axisStep` — a step in one place;
* `JacobianAudit.Evaluator.Shows`, `JacobianAudit.Site.Lands` — what a call of the evaluator, and
  what a step of the block, comes to;
* `JacobianAudit.Site.Looks` — one look;
* `JacobianAudit.lookStep` — the steps of a column, in their order;
* `JacobianAudit.Enough` — what has been seen suffices for a column;
* `JacobianAudit.Site.Sees`, `JacobianAudit.Site.Column` — the looks for a column, and a column
  that is whole or broken off;
* `JacobianAudit.Site.Covers` — an action makes the looks of a column;
* `JacobianAudit.Site.Sized`, `JacobianAudit.Site.Misses` — callers that answer with arrays of the
  declared sizes, and how a look fails then.

Main results:

* `JacobianAudit.Site.exists_looks` — residuals after a step are looked for;
* `JacobianAudit.Site.covers_derivative` — an extrapolation makes the looks of a column;
* `JacobianAudit.Site.covers_column` — **a column is whole, or it is broken off**;
* `JacobianAudit.Site.Looks.misses` — why a look fails.
-/

import Mathlib.Data.List.GetD
import JacobianAudit.Proofs.Stopping

set_option autoImplicit false

namespace JacobianAudit

open Ridders

variable {σ α : Type} [Scalar α]

/-! ### A look -/

/-- What a call for residuals comes to at a point: the residuals, if they are as many as declared; a
fault of its own, if the evaluator has no value there. -/
inductive Evaluator.Shows (e : Evaluator σ α) (machine : Machine) (missing : Fault)
    (point : List (List α)) (w : World σ) : Except Fault (List α) → World σ → Prop
  | value {answer : Answer α} {w' : World σ} :
      (e.evaluate (point.map .vector) none).perform machine w = (.ok (some answer), w') →
      Shows e machine missing point w (readResiduals answer.residuals e.numResiduals) w'
  | noValue {w' : World σ} :
      (e.evaluate (point.map .vector) none).perform machine w = (.ok none, w') →
      Shows e machine missing point w (.error missing) w'
  | raised {fault : Fault} {w' : World σ} :
      (e.evaluate (point.map .vector) none).perform machine w = (.error fault, w') →
      Shows e machine missing point w (.error fault) w'

/-- The vector with a step in one place and zeros in all others. -/
def axisStep (n i : ℕ) (step : α) : List α := (List.replicate n Scalar.zero).set i step

namespace Site

theorem direction_eq (site : Site σ α) (i : ℕ) (step : α) :
    site.direction i step = axisStep site.tangentSize i step := by
  refine List.ext_getElem (by simp [direction, axisStep]) fun j hj hj' => ?_
  simp only [direction, axisStep, List.getElem_map, List.getElem_range, List.getElem_set,
    List.getElem_replicate, eq_comm]

/-- What a step along a tangent coordinate makes of the block: the step is added to one entry, or it
is left to the manifold, which may fail. -/
inductive Lands (site : Site σ α) (machine : Machine) (i : ℕ) (step : α) (w : World σ) :
    Except Fault (List α) → World σ → Prop
  | added : site.manifold = none →
      Lands site machine i step w
        (.ok (List.zipWith (· + ·) site.block (axisStep site.tangentSize i step))) w
  | moved {m : Manifold σ α} {reply : Supplied α} {entries : List α} {w' : World σ} :
      site.manifold = some m →
      (m.plus (.vector site.block) (.vector (axisStep site.tangentSize i step))).perform machine w =
        (.ok reply, w') → reply.isNothing = false → reply.entries = .ok entries →
      entries.length = site.block.length → Lands site machine i step w (.ok entries) w'
  | nowhere {m : Manifold σ α} {w' : World σ} : site.manifold = some m →
      (m.plus (.vector site.block) (.vector (axisStep site.tangentSize i step))).perform machine w =
        (.ok .nothing, w') →
      Lands site machine i step w (.error (.evaluation (.plus site.shown i))) w'
  | raised {m : Manifold σ α} {fault : Fault} {w' : World σ} : site.manifold = some m →
      (m.plus (.vector site.block) (.vector (axisStep site.tangentSize i step))).perform machine w =
        (.error fault, w') → Lands site machine i step w (.error fault) w'
  | malformed {m : Manifold σ α} {reply : Supplied α} {fault : Fault} {w' : World σ} :
      site.manifold = some m →
      (m.plus (.vector site.block) (.vector (axisStep site.tangentSize i step))).perform machine w =
        (.ok reply, w') → reply.isNothing = false → reply.entries = .error fault →
      Lands site machine i step w (.error fault) w'
  | unsized {m : Manifold σ α} {reply : Supplied α} {entries : List α} {w' : World σ} :
      site.manifold = some m →
      (m.plus (.vector site.block) (.vector (axisStep site.tangentSize i step))).perform machine w =
        (.ok reply, w') → reply.isNothing = false → reply.entries = .ok entries →
      entries.length ≠ site.block.length →
      Lands site machine i step w
        (.error (.size (.plusSize entries.length site.shown site.block.length))) w'

/-- A look: the evaluator is called with the moved block in its place, unless there is none. -/
inductive Looks (site : Site σ α) (machine : Machine) (i : ℕ) (step : α) (w : World σ) :
    List (List (List α)) → Except Fault (List α) → World σ → Prop
  | unmoved {fault : Fault} {w' : World σ} : site.Lands machine i step w (.error fault) w' →
      Looks site machine i step w [] (.error fault) w'
  | looked {block : List α} {seen : Except Fault (List α)} {w₁ w' : World σ} :
      site.Lands machine i step w (.ok block) w₁ →
      site.evaluator.Shows machine
        (.evaluation (.perturbed site.shown i (Scalar.quantity step)))
        (site.blocks.set site.index block) w₁ seen w' →
      Looks site machine i step w [site.blocks.set site.index block] seen w'

variable {site : Site σ α} {machine : Machine} {i : ℕ}

/-- What is made of a reply of the manifold. -/
theorem perform_moved_of_reply {m : Manifold σ α} {reply : Supplied α} {step : α} {w w' : World σ}
    (hm : site.manifold = some m)
    (hp : (m.plus (.vector site.block) (.vector (axisStep site.tangentSize i step))).perform machine
      w = (.ok reply, w')) (hnothing : reply.isNothing = false) :
    (site.moved i step).perform machine w =
      (reply.entries >>= fun entries =>
        if entries.length = site.block.length then .ok entries
        else .error (.size (.plusSize entries.length site.shown site.block.length)), w') := by
  unfold moved
  rw [hm, direction_eq]
  refine (Action.perform_bind_of_ok hp).trans ?_
  cases reply with
  | nothing => cases hnothing
  | _ =>
      simp only []
      rw [Action.perform_bind, Action.perform_ofExcept]
      generalize (Supplied.entries _ : Except Fault (List α)) = read
      cases read with
      | error fault => rfl
      | ok entries =>
          simp only [bind, Except.bind]
          split <;> rfl

/-- A step of the block comes to one of these. -/
theorem lands_moved (site : Site σ α) (machine : Machine) (i : ℕ) (step : α) (w : World σ) :
    site.Lands machine i step w ((site.moved i step).perform machine w).1
      ((site.moved i step).perform machine w).2 := by
  cases hm : site.manifold with
  | none =>
      unfold moved
      rw [hm, direction_eq]
      exact .added hm
  | some m =>
      rcases hp : (m.plus (.vector site.block)
        (.vector (axisStep site.tangentSize i step))).perform machine w with ⟨fault | reply, w'⟩
      · have hmoved : (site.moved i step).perform machine w = (.error fault, w') := by
          unfold moved
          rw [hm, direction_eq]
          exact Action.perform_bind_of_error hp
        rw [hmoved]
        exact .raised hm hp
      · cases hnothing : reply.isNothing with
        | true =>
            cases reply with
            | nothing =>
                have hmoved : (site.moved i step).perform machine w =
                    (.error (.evaluation (.plus site.shown i)), w') := by
                  unfold moved
                  rw [hm, direction_eq]
                  exact Action.perform_bind_of_ok hp
                rw [hmoved]
                exact .nowhere hm hp
            | _ => cases hnothing
        | false =>
            rw [perform_moved_of_reply hm hp hnothing]
            cases hentries : reply.entries with
            | error fault => exact .malformed hm hp hnothing hentries
            | ok entries =>
                simp only [bind, Except.bind]
                split
                · exact .moved hm hp hnothing hentries ‹_›
                · exact .unsized hm hp hnothing hentries ‹_›

/-- Residuals after a step are looked for. -/
theorem exists_looks (site : Site σ α) (machine : Machine) (i : ℕ) (step : α) (w : World σ) :
    ∃ points, site.Looks machine i step w points ((site.residuals i step).perform machine w).1
      ((site.residuals i step).perform machine w).2 := by
  have hlands := site.lands_moved machine i step w
  unfold residuals
  rcases hp : (site.moved i step).perform machine w with ⟨fault | block, w₁⟩ <;> rw [hp] at hlands
  · rw [Action.perform_bind_of_error hp]
    exact ⟨_, .unmoved hlands⟩
  · rw [Action.perform_bind_of_ok hp]
    refine ⟨_, .looked hlands ?_⟩
    rw [Action.perform_bind]
    rcases hanswer : (site.evaluator.evaluate ((site.blocks.set site.index block).map .vector)
      none).perform machine w₁ with ⟨fault | _ | answer, w'⟩
    · exact .raised hanswer
    · exact .noValue hanswer
    · simp only [Action.perform_ofExcept]
      exact .value hanswer

end Site

/-! ### Enough for a column -/

/-- The steps of a column, in their order: forth and back at the step of each level. -/
def lookStep (o : DiffOptions α) (start : α) (j : ℕ) : α :=
  if j % 2 = 0 then stepAt o start (j / 2) else -stepAt o start (j / 2)

/-- The central difference of a level, from the residuals that have been seen. -/
def differenceAt (o : DiffOptions α) (start : α) (seen : List (List α)) (k : ℕ) : Supplied α :=
  .vector ((List.zipWith (· - ·) (seen.getD (2 * k) []) (seen.getD (2 * k + 1) [])).map
    (· / (Scalar.two * stepAt o start k)))

/-- What has been seen suffices: one look for a forward difference and two for a central one. An
extrapolation takes two looks for each level, and two levels at least; it has enough if there are
no more levels, or if the latest change is a reason to stop. -/
def Enough (o : DiffOptions α) (start : α) (seen : List (List α)) : Prop :=
  match o.scheme with
  | .forward => seen.length = 1
  | .central => seen.length = 2
  | .ridders => ∃ m, seen.length = 2 * m ∧ 2 ≤ m ∧ (m = o.riddersLevels ∨
      ∃ diagonal changes, Levels o (differenceAt o start seen) m diagonal changes ∧
        Halts o changes m)

/-- There is nothing in having seen nothing. -/
theorem not_enough_nil (o : DiffOptions α) (start : α) : ¬Enough o start [] := by
  intro henough
  unfold Enough at henough
  split at henough
  · cases henough
  · cases henough
  · obtain ⟨m, hm, htwo, -⟩ := henough
    rw [List.length_nil] at hm
    omega

namespace Site

/-- The looks for a column, as long as there is not enough. -/
inductive Sees (site : Site σ α) (machine : Machine) (o : DiffOptions α) (i : ℕ) (start : α)
    (w : World σ) : List (List α) → List (List (List α)) → World σ → Prop
  | nothing : Sees site machine o i start w [] [] w
  | look {seen : List (List α)} {residuals : List α} {points more : List (List (List α))}
      {w₁ w₂ : World σ} :
      Sees site machine o i start w seen points w₁ → ¬Enough o start seen →
      site.Looks machine i (lookStep o start seen.length) w₁ more (.ok residuals) w₂ →
      Sees site machine o i start w (seen ++ [residuals]) (points ++ more) w₂

/-- The looks for a column until there is enough, or until one of them fails. -/
inductive Column (site : Site σ α) (machine : Machine) (o : DiffOptions α) (i : ℕ) (start : α)
    (w : World σ) : List (List (List α)) → Option Fault → World σ → Prop
  | whole {seen : List (List α)} {points : List (List (List α))} {w' : World σ} :
      site.Sees machine o i start w seen points w' → Enough o start seen →
      Column site machine o i start w points none w'
  | brokenOff {seen : List (List α)} {points last : List (List (List α))} {fault : Fault}
      {w₁ w' : World σ} :
      site.Sees machine o i start w seen points w₁ → ¬Enough o start seen →
      site.Looks machine i (lookStep o start seen.length) w₁ last (.error fault) w' →
      Column site machine o i start w (points ++ last) (some fault) w'

end Site

/-! ### Columns -/

/-- The denominator of a number is positive. -/
theorem Binary64.den_pos {x : Float} {negative : Bool} {num den : ℕ}
    (h : Binary64.quantity x = .finite negative num den) : 0 < den := by
  unfold Binary64.quantity at h
  split at h
  · cases h
  · cases h
  · injection h with _ _ hden
    omega
  · injection h with _ _ hden
    rw [← hden]
    exact Nat.two_pow_pos _

/-- There is at most one length that equals a declared size. -/
theorem Setting.eq_of_equals_count {s : Setting} {m n : ℕ} (hm : s.equals (.count m) = true)
    (hn : s.equals (.count n) = true) : m = n := by
  cases s with
  | whole value =>
      rw [equals_whole, decide_eq_true_eq] at hm hn
      omega
  | flag value =>
      simp only [equals, equalsSimple, quantity?, Quantity.equals_ofInt, decide_eq_true_eq] at hm hn
      omega
  | real value =>
      simp only [equals, equalsSimple, quantity?] at hm hn
      cases hq : Binary64.quantity value with
      | finite negative num den =>
          have hden := Binary64.den_pos hq
          rw [hq] at hm hn
          simp only [Quantity.equals, Quantity.ofInt, beq_iff_eq, Quantity.signed_natAbs] at hm hn
          have hmul : (m : ℤ) * den = n * den := by omega
          exact_mod_cast Int.eq_of_mul_eq_mul_right (by omega) hmul
      | _ =>
          rw [hq] at hm
          cases hm
  | _ => simp [equals, equalsSimple, quantity?] at hm

/-- The fault that something comes to, if it does. -/
def faultOf {β : Type} : Except Fault β → Option Fault
  | .ok _ => none
  | .error fault => some fault

section Column

variable {site : Site σ α} {machine : Machine} {o : DiffOptions α} {i : ℕ} {start : α}
  {w w' : World σ} {k : ℕ} {seen : List (List α)} {points : List (List (List α))}

/-- What has been seen is as long as declared. -/
theorem Site.Looks.equals_length {step : α} {residuals : List α}
    (h : site.Looks machine i step w points (.ok residuals) w') :
    site.evaluator.numResiduals.equals (.count residuals.length) = true := by
  cases h with
  | looked _ hshows =>
      generalize hseen : (Except.ok residuals : Except Fault (List α)) = found at hshows
      cases hshows with
      | value =>
          obtain ⟨entries, -, h⟩ := Except.bind_eq_ok_iff.1 hseen.symm
          split at h
          · rename_i hequals
            rwa [← Except.ok.inj h]
          · cases h
      | noValue => cases hseen
      | raised => cases hseen

/-- What has been seen once is not changed by what is seen later. -/
theorem differenceAt_append (more : List (List α)) {j : ℕ} (hj : 2 * j + 1 < seen.length) :
    differenceAt o start (seen ++ more) j = differenceAt o start seen j := by
  unfold differenceAt
  rw [List.getD_append _ _ _ _ (by omega), List.getD_append _ _ _ _ hj]

/-- The central difference of the latest level. -/
theorem differenceAt_last (hlength : seen.length = 2 * k) (ahead behind : List α) :
    differenceAt o start (seen ++ [ahead, behind]) k =
      .vector ((List.zipWith (· - ·) ahead behind).map (· / (Scalar.two * stepAt o start k))) := by
  unfold differenceAt
  rw [List.getD_append_right _ _ _ _ (by omega), List.getD_append_right _ _ _ _ (by omega)]
  have hfirst : 2 * k - seen.length = 0 := by omega
  have hsecond : 2 * k + 1 - seen.length = 1 := by omega
  rw [hfirst, hsecond]
  rfl

/-- **Two looks for a central difference**: both give something to see, or one of them fails. -/
theorem Site.sees_centralDifference (hsees : site.Sees machine o i start w seen points w')
    (hlength : seen.length = 2 * k) (hgo : ¬Enough o start seen)
    (hodd : ∀ ahead, ¬Enough o start (seen ++ [ahead])) :
    (∃ fault w₂ points', (site.centralDifference i (stepAt o start k)).perform machine w' =
      (.error fault, w₂) ∧ site.Column machine o i start w points' (some fault) w₂) ∨
    ∃ ahead behind w₂ points', (site.centralDifference i (stepAt o start k)).perform machine w' =
      (.ok ((List.zipWith (· - ·) ahead behind).map (· / (Scalar.two * stepAt o start k))), w₂) ∧
      site.Sees machine o i start w (seen ++ [ahead, behind]) points' w₂ ∧
      ∀ residuals ∈ [ahead, behind],
        site.evaluator.numResiduals.equals (.count residuals.length) = true := by
  have hforth : lookStep o start seen.length = stepAt o start k := by
    rw [lookStep, if_pos (by omega), hlength, Nat.mul_div_cancel_left k two_pos]
  have hback : ∀ ahead : List α, lookStep o start (seen ++ [ahead]).length =
      -stepAt o start k := by
    intro ahead
    rw [lookStep, List.length_append, List.length_singleton, if_neg (by omega)]
    congr 2
    omega
  unfold centralDifference
  obtain ⟨first, hfirst⟩ := site.exists_looks machine i (stepAt o start k) w'
  rcases ha : (site.residuals i (stepAt o start k)).perform machine w' with ⟨fault | ahead, w₁⟩ <;>
    rw [ha] at hfirst
  · exact .inl ⟨fault, w₁, _, Action.perform_bind_of_error ha,
      .brokenOff hsees hgo (hforth ▸ hfirst)⟩
  have hsees' := Sees.look hsees hgo (hforth ▸ hfirst)
  obtain ⟨second, hsecond⟩ := site.exists_looks machine i (-stepAt o start k) w₁
  rw [Action.perform_bind_of_ok ha]
  rcases hb : (site.residuals i (-stepAt o start k)).perform machine w₁ with
    ⟨fault | behind, w₂⟩ <;> rw [hb] at hsecond
  · exact .inl ⟨fault, w₂, _, Action.perform_bind_of_error hb,
      .brokenOff hsees' (hodd ahead) (hback ahead ▸ hsecond)⟩
  have hboth := Sees.look hsees' (hodd ahead) (hback ahead ▸ hsecond)
  rw [List.append_assoc] at hboth
  exact .inr ⟨ahead, behind, w₂, _, Action.perform_bind_of_ok hb, hboth,
    by simpa using ⟨hfirst.equals_length, hsecond.equals_length⟩⟩

/-- An action makes the looks of a column, unless a setting stops it: it comes to a fault if a look
does, and otherwise makes something of what has been seen. -/
def Site.Covers (site : Site σ α) (machine : Machine) (o : DiffOptions α) (i : ℕ) (start : α)
    (w : World σ) {β : Type} (a : Action σ β) : Prop :=
  (∃ fault, o.Raises fault ∧ (a.perform machine w).1 = .error fault) ∨
    ∃ points, site.Column machine o i start w points (faultOf (a.perform machine w).1)
      (a.perform machine w).2

theorem Site.Column.covers {β : Type} {a : Action σ β} (answer : Except Fault β)
    (h : site.Column machine o i start w points (faultOf answer) w')
    (ha : a.perform machine w = (answer, w')) : site.Covers machine o i start w a := by
  refine .inr ⟨points, ?_⟩
  rw [ha]
  exact h

theorem Site.Covers.map {β γ : Type} {a : Action σ β} (h : site.Covers machine o i start w a)
    (f : β → γ) : site.Covers machine o i start w (a >>= fun x => pure (f x)) := by
  rcases h with ⟨fault, hraises, hfault⟩ | ⟨points, h⟩
  · refine .inl ⟨fault, hraises, ?_⟩
    rw [Action.perform_bind_of_error (eq_mk_of_fst hfault)]
  · rcases ha : a.perform machine w with ⟨fault | x, w₁⟩ <;> rw [ha] at h
    · exact Column.covers (.error fault) h (Action.perform_bind_of_error ha)
    · exact Column.covers (.ok (f x)) h (Action.perform_bind_of_ok ha)

/-- A forward difference makes one look. -/
theorem Site.covers_forward (hscheme : o.scheme = .forward) (site : Site σ α) (machine : Machine)
    (i : ℕ) (start : α) (w : World σ) :
    site.Covers machine o i start w (site.residuals i start) := by
  obtain ⟨points, hlooks⟩ := site.exists_looks machine i (lookStep o start 0) w
  show site.Covers machine o i start w (site.residuals i (lookStep o start 0))
  rcases hr : (site.residuals i (lookStep o start 0)).perform machine w with ⟨fault | ahead, w₁⟩ <;>
    rw [hr] at hlooks
  · exact (Column.brokenOff .nothing (not_enough_nil o start) hlooks).covers (.error fault) hr
  · refine (Column.whole (.look .nothing (not_enough_nil o start) hlooks) ?_).covers (.ok ahead) hr
    simp only [Enough, hscheme]
    rfl

/-- A central difference makes two looks. -/
theorem Site.covers_central (hscheme : o.scheme = .central) (site : Site σ α) (machine : Machine)
    (i : ℕ) (start : α) (w : World σ) :
    site.Covers machine o i start w (site.centralDifference i start) := by
  have hodd : ∀ ahead : List α, ¬Enough o start ([] ++ [ahead]) := by
    intro ahead henough
    simp only [Enough, hscheme] at henough
    cases henough
  have hsees : site.Sees machine o i start w [] [] w := .nothing
  rcases Site.sees_centralDifference (k := 0) hsees rfl (not_enough_nil o start) hodd with
    ⟨fault, w₂, points, hperform, hcolumn⟩ | ⟨ahead, behind, w₂, points, hperform, hboth, -⟩
  · exact hcolumn.covers (.error fault) hperform
  · refine (Column.whole hboth ?_).covers (.ok _) hperform
    simp only [Enough, hscheme]
    rfl

/-! ### An extrapolation, level by level -/

/-- The central differences of a column, as an extrapolation takes them. -/
def Site.central (site : Site σ α) (i : ℕ) (step : α) : Action σ (Supplied α) := do
  return .vector (← site.centralDifference i step)

/-- What has been seen after some levels of an extrapolation that goes on. -/
structure Ascent (site : Site σ α) (machine : Machine) (o : DiffOptions α) (i : ℕ) (start : α)
    (w : World σ) (k : ℕ) (seen : List (List α)) (points : List (List (List α)))
    (w' : World σ) : Prop where
  sees : site.Sees machine o i start w seen points w'
  length_eq : seen.length = 2 * k
  sized : ∀ residuals ∈ seen,
    site.evaluator.numResiduals.equals (.count residuals.length) = true
  goes : ¬Enough o start seen
  tabulated : ∃ row, Tableau.rowOver ((List.range k).map (differenceAt o start seen)) 2
    o.riddersShrink = .ok row
  calls : ∃ world : ℕ → World σ, world 0 = w ∧ world k = w' ∧ ∀ j < k,
    (site.central i (stepAt o start j)).perform machine (world j) =
      (.ok (differenceAt o start seen j), world (j + 1))
  /-- None of the levels was a reason to stop. -/
  never : ∀ diagonal changes, Levels o (differenceAt o start seen) k diagonal changes →
    ∀ m, 2 ≤ m → m ≤ k → ¬Halts o changes m

/-- Central differences of what has been seen are arrays of one shape. -/
theorem exists_shape_of_seen (o : DiffOptions α) (start : α) (hlength : seen.length = 2 * k)
    (hsized : ∀ residuals ∈ seen,
      site.evaluator.numResiduals.equals (.count residuals.length) = true) :
    ∃ shape, ∀ j < k, ∃ t, (differenceAt o start seen j).read = .ok t ∧ t.shape = shape := by
  obtain ⟨rows, hrows⟩ : ∃ rows, ∀ residuals ∈ seen, residuals.length = rows := by
    cases seen with
    | nil => exact ⟨0, nofun⟩
    | cons first rest =>
        exact ⟨first.length, fun residuals h => Setting.eq_of_equals_count
          (hsized residuals h) (hsized first List.mem_cons_self)⟩
  have hrow : ∀ l < seen.length, (seen.getD l []).length = rows := by
    intro l hl
    rw [List.getD_eq_getElem _ _ hl]
    exact hrows _ (List.getElem_mem hl)
  refine ⟨[rows], fun j hj => ⟨_, rfl, ?_⟩⟩
  show [_] = [rows]
  rw [List.length_map, List.length_zipWith, hrow _ (by omega), hrow _ (by omega), Nat.min_self]

/-- The levels before see nothing of the next one. -/
theorem Ascent.differenceAt_eq (h : Ascent site machine o i start w k seen points w')
    (ahead behind : List α) {j : ℕ} (hj : j < k) :
    differenceAt o start (seen ++ [ahead, behind]) j = differenceAt o start seen j :=
  differenceAt_append [ahead, behind] (by have := h.length_eq; omega)

theorem Ascent.length_succ (h : Ascent site machine o i start w k seen points w')
    (ahead behind : List α) : (seen ++ [ahead, behind]).length = 2 * (k + 1) := by
  rw [List.length_append, h.length_eq]
  rfl

theorem Ascent.sized_succ (h : Ascent site machine o i start w k seen points w')
    {ahead behind : List α} (hsized : ∀ residuals ∈ [ahead, behind],
      site.evaluator.numResiduals.equals (.count residuals.length) = true) :
    ∀ residuals ∈ seen ++ [ahead, behind],
      site.evaluator.numResiduals.equals (.count residuals.length) = true :=
  fun residuals hmem => (List.mem_append.1 hmem).elim (h.sized residuals) (hsized residuals)

/-- The central differences of one level more. -/
theorem Ascent.exists_calls (h : Ascent site machine o i start w k seen points w')
    {ahead behind : List α} {w₂ : World σ}
    (hcall : (site.central i (stepAt o start k)).perform machine w' =
      (.ok (differenceAt o start (seen ++ [ahead, behind]) k), w₂)) :
    ∃ world : ℕ → World σ, world 0 = w ∧ world (k + 1) = w₂ ∧ ∀ j < k + 1,
      (site.central i (stepAt o start j)).perform machine (world j) =
        (.ok (differenceAt o start (seen ++ [ahead, behind]) j), world (j + 1)) := by
  obtain ⟨world, hstart, hend, hcalls⟩ := h.calls
  refine ⟨fun j => if j = k + 1 then w₂ else world j, hstart, if_pos rfl, fun j hj => ?_⟩
  simp only []
  rw [if_neg (by omega)]
  rcases Nat.lt_succ_iff_lt_or_eq.1 hj with hj | rfl
  · rw [if_neg (by omega), h.differenceAt_eq ahead behind hj]
    exact hcalls j hj
  · rw [if_pos rfl, hend]
    exact hcall

/-- An extrapolation that goes on has a tableau. -/
theorem Ascent.exists_levels (h : Ascent site machine o i start w k seen points w') :
    ∃ diagonal changes, Levels o (differenceAt o start seen) k diagonal changes := by
  obtain ⟨shape, hvalues⟩ := exists_shape_of_seen o start h.length_eq h.sized
  obtain ⟨row, hrow⟩ := h.tabulated
  exact exists_levels_of_rowOver hvalues hrow

/-- Without enough after one level more, the extrapolation goes on: the new level was no reason to
stop, and neither was any before it. -/
theorem Ascent.goes_on (hscheme : o.scheme = .ridders)
    (h : Ascent site machine o i start w k seen points w') {ahead behind : List α} {w₂ : World σ}
    {points' : List (List (List α))}
    (hsees : site.Sees machine o i start w (seen ++ [ahead, behind]) points' w₂)
    (hsized : ∀ residuals ∈ [ahead, behind],
      site.evaluator.numResiduals.equals (.count residuals.length) = true)
    (hcall : (site.central i (stepAt o start k)).perform machine w' =
      (.ok (differenceAt o start (seen ++ [ahead, behind]) k), w₂)) {row : List (Tensor α)}
    (hrow : Tableau.rowOver ((List.range (k + 1)).map
      (differenceAt o start (seen ++ [ahead, behind]))) 2 o.riddersShrink = .ok row)
    (hgo : ¬Enough o start (seen ++ [ahead, behind])) :
    Ascent site machine o i start w (k + 1) (seen ++ [ahead, behind]) points' w₂ := by
  have hlength := h.length_succ ahead behind
  refine ⟨hsees, hlength, h.sized_succ hsized, hgo, ⟨row, hrow⟩, h.exists_calls hcall, ?_⟩
  intro diagonal changes hlevels m hm hmk hhalts
  rcases Nat.lt_or_eq_of_le hmk with hmk | rfl
  · have hbefore := (hlevels.mono k.le_succ).congr fun j hj => h.differenceAt_eq ahead behind hj
    exact h.never diagonal changes hbefore m hm (by omega) hhalts
  · refine hgo ?_
    simp only [Enough, hscheme]
    exact ⟨k + 1, hlength, hm, .inr ⟨diagonal, changes, hlevels, hhalts⟩⟩

variable [MeasuredScalar α]

/-- After as many levels as there are, or after a level that is a reason to stop, there is enough,
and the extrapolation has its answer. -/
theorem Ascent.stops (h : Ascent site machine o i start w k seen points w')
    (hk : k < o.riddersLevels) {ahead behind : List α} {w₂ : World σ}
    (hcall : (site.central i (stepAt o start k)).perform machine w' =
      (.ok (differenceAt o start (seen ++ [ahead, behind]) k), w₂))
    {diagonal : ℕ → Tensor α} {changes : ℕ → α}
    (hlevels : Levels o (differenceAt o start (seen ++ [ahead, behind])) (k + 1) diagonal changes)
    (htwo : 2 ≤ k + 1) (hreason : k + 1 = o.riddersLevels ∨ Halts o changes (k + 1)) :
    ∃ entry, (derivative (site.central i) start o).perform machine w = (.ok entry, w₂) := by
  obtain ⟨world, rfl, rfl, hcalls⟩ := h.exists_calls hcall
  have hstops : StopsAfter o changes (k + 1) := by
    refine ⟨⟨htwo, hk, hreason⟩, fun m hm => ?_⟩
    by_contra hlt
    have hbefore := (hlevels.mono k.le_succ).congr fun j hj => h.differenceAt_eq ahead behind hj
    exact h.never diagonal changes hbefore m hm.1 (by omega) (hm.2.2.resolve_left (by omega))
  obtain ⟨entry, hperform, -⟩ := perform_derivative hstops hlevels hcalls
  exact ⟨entry, hperform⟩

/-- A level that has no row in the tableau ends the extrapolation, and a setting is to blame. -/
theorem Ascent.fails (hscheme : o.scheme = .ridders)
    (h : Ascent site machine o i start w k seen points w') (hk : k < o.riddersLevels)
    {ahead behind : List α} {w₂ : World σ}
    (hsized : ∀ residuals ∈ [ahead, behind],
      site.evaluator.numResiduals.equals (.count residuals.length) = true)
    (hcall : (site.central i (stepAt o start k)).perform machine w' =
      (.ok (differenceAt o start (seen ++ [ahead, behind]) k), w₂)) {fault : Fault}
    (hrow : Tableau.rowOver ((List.range (k + 1)).map
      (differenceAt o start (seen ++ [ahead, behind]))) 2 o.riddersShrink = .error fault) :
    site.Covers machine o i start w (derivative (site.central i) start o) := by
  obtain ⟨row, hbefore⟩ := h.tabulated
  obtain ⟨diagonal, changes, hlevels⟩ := h.exists_levels
  obtain ⟨world, rfl, rfl, hcalls⟩ := h.exists_calls hcall
  have hsame : ∀ j < k, differenceAt o start seen j =
      differenceAt o start (seen ++ [ahead, behind]) j := fun j hj =>
    (h.differenceAt_eq ahead behind hj).symm
  have hfault := perform_derivative_of_no_row (hlevels.congr hsame) hk hcalls
    (h.never diagonal changes hlevels) hrow
  -- nothing but a power is in the way of a row over arrays of one shape
  obtain ⟨shape, hvalues⟩ :=
    exists_shape_of_seen o start (h.length_succ ahead behind) (h.sized_succ hsized)
  have hmap : (List.range k).map (differenceAt o start seen) =
      (List.range k).map (differenceAt o start (seen ++ [ahead, behind])) :=
    List.map_congr_left fun j hj => hsame j (List.mem_range.1 hj)
  rw [hmap] at hbefore
  obtain ⟨j, hj, hle, hpower⟩ := of_rowOver_error hvalues hbefore hrow
  refine .inl ⟨fault, .inr ⟨hscheme, j, hj, by omega, hpower⟩, ?_⟩
  rw [hfault]

/-- A level that is broken off ends the extrapolation. -/
theorem Ascent.breaks_off (h : Ascent site machine o i start w k seen points w')
    (hk : k < o.riddersLevels) {fault : Fault} {w₂ : World σ} {points' : List (List (List α))}
    (hperform : (site.centralDifference i (stepAt o start k)).perform machine w' =
      (.error fault, w₂))
    (hcolumn : site.Column machine o i start w points' (some fault) w₂) :
    site.Covers machine o i start w (derivative (site.central i) start o) := by
  obtain ⟨diagonal, changes, hlevels⟩ := h.exists_levels
  obtain ⟨world, rfl, rfl, hcalls⟩ := h.calls
  have hfault : (site.central i (stepAt o start k)).perform machine (world k) =
      (.error fault, w₂) := Action.perform_bind_of_error hperform
  have hderivative := perform_derivative_of_error hlevels hk hcalls
    (h.never diagonal changes hlevels) hfault
  exact hcolumn.covers (.error fault) hderivative

/-- With one level more there is enough, and the extrapolation has its answer. -/
theorem Ascent.suffices (hscheme : o.scheme = .ridders)
    (h : Ascent site machine o i start w k seen points w') (hk : k < o.riddersLevels)
    {ahead behind : List α} {w₂ : World σ} {points' : List (List (List α))}
    (hsees : site.Sees machine o i start w (seen ++ [ahead, behind]) points' w₂)
    (hsized : ∀ residuals ∈ [ahead, behind],
      site.evaluator.numResiduals.equals (.count residuals.length) = true)
    (hcall : (site.central i (stepAt o start k)).perform machine w' =
      (.ok (differenceAt o start (seen ++ [ahead, behind]) k), w₂)) {row : List (Tensor α)}
    (hrow : Tableau.rowOver ((List.range (k + 1)).map
      (differenceAt o start (seen ++ [ahead, behind]))) 2 o.riddersShrink = .ok row)
    (henough : Enough o start (seen ++ [ahead, behind])) :
    site.Covers machine o i start w (derivative (site.central i) start o) := by
  have hlength := h.length_succ ahead behind
  have hreason := henough
  simp only [Enough, hscheme] at hreason
  obtain ⟨m, hm, htwo, hreason⟩ := hreason
  obtain rfl : k + 1 = m := by omega
  obtain ⟨diagonal, changes, hlevels, hreason⟩ : ∃ diagonal changes,
      Levels o (differenceAt o start (seen ++ [ahead, behind])) (k + 1) diagonal changes ∧
        (k + 1 = o.riddersLevels ∨ Halts o changes (k + 1)) := by
    rcases hreason with hend | ⟨diagonal, changes, hlevels, hhalts⟩
    · obtain ⟨shape, hvalues⟩ := exists_shape_of_seen o start hlength (h.sized_succ hsized)
      obtain ⟨diagonal, changes, hlevels⟩ := exists_levels_of_rowOver hvalues hrow
      exact ⟨diagonal, changes, hlevels, .inl hend⟩
    · exact ⟨diagonal, changes, hlevels, .inr hhalts⟩
  obtain ⟨entry, hderivative⟩ := h.stops hk hcall hlevels htwo hreason
  exact (Site.Column.whole hsees henough).covers (.ok entry) hderivative

/-- An extrapolation that goes on takes one level more, and goes on after that, or else it makes the
looks of a column. -/
theorem Ascent.next (hscheme : o.scheme = .ridders)
    (h : Ascent site machine o i start w k seen points w') (hk : k < o.riddersLevels) :
    (∃ seen points w', Ascent site machine o i start w (k + 1) seen points w') ∨
      site.Covers machine o i start w (derivative (site.central i) start o) := by
  have hodd : ∀ ahead : List α, ¬Enough o start (seen ++ [ahead]) := by
    intro ahead henough
    simp only [Enough, hscheme] at henough
    obtain ⟨m, hm, -⟩ := henough
    have := h.length_eq
    rw [List.length_append, List.length_singleton] at hm
    omega
  rcases Site.sees_centralDifference h.sees h.length_eq h.goes hodd with
    ⟨fault, w₂, points', hperform, hcolumn⟩ |
    ⟨ahead, behind, w₂, points', hperform, hsees, hsized⟩
  · exact .inr (h.breaks_off hk hperform hcolumn)
  have hcall : (site.central i (stepAt o start k)).perform machine w' =
      (.ok (differenceAt o start (seen ++ [ahead, behind]) k), w₂) := by
    rw [differenceAt_last h.length_eq]
    exact Action.perform_bind_of_ok hperform
  cases hrow : Tableau.rowOver ((List.range (k + 1)).map
    (differenceAt o start (seen ++ [ahead, behind]))) 2 o.riddersShrink with
  | error fault => exact .inr (h.fails hscheme hk hsized hcall hrow)
  | ok row =>
      by_cases henough : Enough o start (seen ++ [ahead, behind])
      · exact .inr (h.suffices hscheme hk hsees hsized hcall hrow henough)
      · exact .inl ⟨_, points', w₂, h.goes_on hscheme hsees hsized hcall hrow henough⟩

/-- **An extrapolation makes the looks of a column**, unless a setting stops it. Induction on the
levels: as long as it goes on, it gets to the next one, and there are not more than allowed. -/
theorem Site.covers_derivative (hscheme : o.scheme = .ridders) (site : Site σ α)
    (machine : Machine) (i : ℕ) (start : α) (w : World σ) :
    site.Covers machine o i start w (derivative (site.central i) start o) := by
  have hclimb : ∀ k ≤ o.riddersLevels,
      (∃ seen points w', Ascent site machine o i start w k seen points w') ∨
        site.Covers machine o i start w (derivative (site.central i) start o) := by
    intro k
    induction k with
    | zero =>
        exact fun _ => .inl ⟨[], [], w, .nothing, rfl, nofun, not_enough_nil o start, ⟨[], rfl⟩,
          ⟨fun _ => w, rfl, rfl, nofun⟩, fun _ _ _ m hm hm0 => absurd hm0 (by omega)⟩
    | succ k ih =>
        intro hk
        rcases ih (by omega) with ⟨seen, points, w', hascent⟩ | hcovers
        · exact hascent.next hscheme hk
        · exact .inr hcovers
  rcases hclimb o.riddersLevels le_rfl with ⟨seen, points, w', hascent⟩ | hcovers
  · refine absurd ?_ hascent.goes
    simp only [Enough, hscheme]
    exact ⟨o.riddersLevels, hascent.length_eq, o.two_le_riddersLevels, .inl rfl⟩
  · exact hcovers

/-- **A column is whole, or it is broken off**, whatever the scheme, unless a setting stops it. -/
theorem Site.covers_column (o : DiffOptions α) (site : Site σ α) (machine : Machine) (i : ℕ)
    (base : List α) (scale : α) (w : World σ) :
    site.Covers machine o i (o.stepSize scale) w (site.column o base i scale) := by
  unfold column
  simp only []
  generalize o.stepSize scale = start
  cases hscheme : o.scheme with
  | forward => exact (site.covers_forward hscheme machine i start w).map _
  | central => exact site.covers_central hscheme machine i start w
  | ridders => exact (site.covers_derivative hscheme machine i start w).map Tensor.data

end Column

/-! ### A look that fails -/

/-- Whoever answers does so with arrays of the declared sizes. -/
structure Site.Sized (site : Site σ α) (rows : ℕ) : Prop where
  numResiduals_eq : site.evaluator.numResiduals = .count rows
  residuals : ∀ point : List (List α), (site.evaluator.evaluate (point.map .vector) none).Promises
    (fun reply => ∀ answer ∈ reply, answer.residuals.HasEntries rows) fun _ => False
  plus : ∀ m ∈ site.manifold, ∀ delta : List α,
    (m.plus (.vector site.block) (.vector delta)).Promises
      (fun reply => reply.isNothing = false → reply.HasEntries site.block.length) fun _ => False

/-- A look that fails: it is not made if the step leads nowhere, and otherwise there are no
residuals. The fault says so. -/
inductive Site.Misses (site : Site σ α) (i : ℕ) (step : α) : List (List (List α)) → Fault → Prop
  | nowhere : Misses site i step [] (.evaluation (.plus site.shown i))
  | unseen (block : List α) : Misses site i step [site.blocks.set site.index block]
      (.evaluation (.perturbed site.shown i (Scalar.quantity step)))

section Fails

variable {site : Site σ α} {machine : Machine} {i rows : ℕ} {step : α} {w w' : World σ}
  {fault : Fault}

/-- A step that fails leads nowhere. -/
theorem Site.Lands.eq_of_sized (hsite : site.Sized rows)
    (h : site.Lands machine i step w (.error fault) w') :
    fault = .evaluation (.plus site.shown i) := by
  cases h with
  | nowhere => rfl
  | raised hm hp => exact ((hsite.plus _ hm _).faults hp).elim
  | malformed hm hp hnothing hentries =>
      obtain ⟨entries, hread, -⟩ := (hsite.plus _ hm _).answers hp hnothing
      rw [hentries] at hread
      cases hread
  | unsized hm hp hnothing hentries hlength =>
      obtain ⟨entries, hread, hsized⟩ := (hsite.plus _ hm _).answers hp hnothing
      obtain rfl := Except.ok.inj (hentries.symm.trans hread)
      exact absurd hsized hlength

/-- A call that fails has no value. -/
theorem Evaluator.Shows.eq_of_sized (hsite : site.Sized rows) {missing : Fault}
    {point : List (List α)}
    (h : site.evaluator.Shows machine missing point w (.error fault) w') : fault = missing := by
  generalize hseen : (Except.error fault : Except Fault (List α)) = seen at h
  cases h with
  | value hp =>
      obtain ⟨xs, hread, -⟩ :=
        ((hsite.residuals point).answers hp _ rfl).exists_readResiduals
      rw [hsite.numResiduals_eq, hread] at hseen
      cases hseen
  | noValue => exact Except.error.inj hseen
  | raised hp => exact ((hsite.residuals point).faults hp).elim

/-- **A look fails because the step leads nowhere, or because there are no residuals**, if everyone
answers with arrays of the declared sizes. -/
theorem Site.Looks.misses (hsite : site.Sized rows) {points : List (List (List α))}
    (h : site.Looks machine i step w points (.error fault) w') :
    site.Misses i step points fault := by
  generalize hseen : (Except.error fault : Except Fault (List α)) = seen at h
  cases h with
  | unmoved hlands =>
      obtain rfl := Except.error.inj hseen
      rw [hlands.eq_of_sized hsite]
      exact .nowhere
  | looked hlands hshows =>
      subst hseen
      rw [Evaluator.Shows.eq_of_sized hsite hshows]
      exact .unseen _

end Fails

end JacobianAudit
