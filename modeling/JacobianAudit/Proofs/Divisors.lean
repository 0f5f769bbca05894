/-
**What differences are divided by.**

A step is a fraction of a coordinate's magnitude, but not less than a least step, and an
extrapolation divides it by the shrink factor again and again. The settings are accepted one by one
if they are positive, and above one if they are the factor. That does not keep a fraction or a
factor from being infinite, a double step from being too large, or a step that has been divided
often enough from becoming zero or from staying where it is. This module shows that there is no
other way for a step to go wrong, and that two steps decide for all blocks: the one of the largest
number and the least one.

Main definitions:

* `JacobianAudit.DiffOptions.divisor` — what a difference with some step is divided by;
* `JacobianAudit.Site.difference`, `JacobianAudit.DiffOptions.along` — a column as a function of
  differences;
* `JacobianAudit.DiffOptions.SafeSteps` — steps that are positive, finite and smaller and smaller.

Main results:

* `JacobianAudit.DiffOptions.safeSteps_iff` — the start and the last step decide;
* `JacobianAudit.Site.column_congr` — a column depends on the differences at these steps only;
* `JacobianAudit.step_safety` — **the settings decide for all blocks**.
-/

import JacobianAudit.Proofs.Itineraries
import JacobianAudit.Proofs.Offences
import JacobianAudit.Proofs.Powers

set_option autoImplicit false

namespace JacobianAudit

open Ridders (stepAt)

/-! ### Differences as they are divided -/

section Columns

variable {σ α : Type} [Scalar α]

namespace DiffOptions

variable (o : DiffOptions α)

/-- The fraction of a coordinate's magnitude that is stepped. -/
def fraction : α :=
  match o.scheme with
  | .ridders => o.riddersRelativeStep
  | _ => o.relativeStep

/-- The least step. -/
def leastStep : α :=
  match o.scheme with
  | .ridders => o.riddersMinStep
  | _ => o.minStep

/-- The number of steps at most. -/
def levels : ℕ :=
  match o.scheme with
  | .ridders => o.riddersLevels
  | _ => 1

/-- What a difference is divided by. -/
def divisor (step : α) : α :=
  match o.scheme with
  | .forward => step
  | _ => Scalar.two * step

/-- The derivative that a scheme makes of differences. -/
def along (difference : α → Action σ (List α)) (start : α) : Action σ (List α) :=
  match o.scheme with
  | .ridders => do
    return (← Ridders.derivative (fun step => do return .vector (← difference step)) start o).data
  | _ => difference start

theorem stepSize_eq (x : α) :
    o.stepSize x = Scalar.orLarger (o.fraction * Scalar.abs x) o.leastStep := by
  unfold stepSize fraction leastStep
  cases o.scheme <;> rfl

theorem zero_lt_fraction : Scalar.lt Scalar.zero o.fraction = true := by
  unfold fraction
  split
  · exact o.riddersRelativeStep_pos
  · exact o.relativeStep_pos

theorem zero_lt_leastStep : Scalar.lt Scalar.zero o.leastStep = true := by
  unfold leastStep
  split
  · exact o.riddersMinStep_pos
  · exact o.minStep_pos

end DiffOptions

namespace Site

variable (site : Site σ α) (o : DiffOptions α) (base : List α) (i : ℕ)

/-- The difference of a scheme with some step, and what it is divided by. -/
def difference (step : α) : Action σ (List α) := do
  let ahead ← site.residuals i step
  let behind ← match o.scheme with
    | .forward => pure base
    | _ => site.residuals i (-step)
  return (List.zipWith (· - ·) ahead behind).map (· / o.divisor step)

theorem column_eq_along (scale : α) :
    site.column o base i scale = o.along (site.difference o base i) (o.stepSize scale) := by
  unfold column DiffOptions.along difference forwardDifference centralDifference DiffOptions.divisor
  cases o.scheme <;> simp only [pure_bind]

end Site

/-! ### What a column depends on -/

namespace Ridders

variable {o : DiffOptions α}

theorem stepAt_zero (start : α) : stepAt o start 0 = start := rfl

theorem stepAt_div (start : α) (k : ℕ) :
    stepAt o (start / o.riddersShrink) k = stepAt o start (k + 1) := by
  induction k with
  | zero => rfl
  | succ k ih =>
      rw [stepAt, ih]
      rfl

/-- A search asks for the central differences at the steps of its levels only. -/
theorem search_congr {central central' : α → Action σ (Supplied α)} {levels : ℕ} {s : Search α}
    (h : ∀ k < levels, central' (stepAt o s.step k) = central (stepAt o s.step k)) :
    search central' o levels s = search central o levels s := by
  induction levels generalizing s with
  | zero => rfl
  | succ levels ih =>
      have hfirst : central' s.step = central s.step := h 0 levels.succ_pos
      have hrest : ∀ row newest best,
          search central' o levels ⟨row, s.step / o.riddersShrink, newest, best⟩ =
            search central o levels ⟨row, s.step / o.riddersShrink, newest, best⟩ := by
        refine fun row newest best => ih fun k hk => ?_
        rw [stepAt_div]
        exact h (k + 1) (by omega)
      simp only [search, hfirst, hrest]

end Ridders

theorem DiffOptions.along_congr {o : DiffOptions α} {start : α}
    {difference difference' : α → Action σ (List α)}
    (h : ∀ k < o.levels, difference' (stepAt o start k) = difference (stepAt o start k)) :
    o.along difference' start = o.along difference start := by
  unfold along
  unfold levels at h
  cases hscheme : o.scheme with
  | ridders =>
      rw [hscheme] at h
      have hsearch : Ridders.search (fun step => do return .vector (← difference' step)) o
          o.riddersLevels ⟨[], start, none, none⟩ =
            Ridders.search (fun step => do return .vector (← difference step)) o
              o.riddersLevels ⟨[], start, none, none⟩ :=
        Ridders.search_congr fun k hk => by rw [h k hk]
      simp only [Ridders.derivative, hsearch]
  | forward =>
      rw [hscheme] at h
      exact h 0 one_pos
  | central =>
      rw [hscheme] at h
      exact h 0 one_pos

/-- **A column depends on the differences at its steps only.** -/
theorem Site.column_congr (site : Site σ α) (o : DiffOptions α) (base : List α) (i : ℕ) (scale : α)
    {difference : α → Action σ (List α)}
    (h : ∀ k < o.levels, difference (stepAt o (o.stepSize scale) k) =
      site.difference o base i (stepAt o (o.stepSize scale) k)) :
    o.along difference (o.stepSize scale) = site.column o base i scale := by
  rw [column_eq_along]
  exact DiffOptions.along_congr h

end Columns

/-! ### Steps that shrink -/

namespace Binary64

variable {x y z r : Float}

theorem zero_lt_iff (hx : Magnitude x) : Scalar.lt Scalar.zero x = true ↔ 0 < amount x := by
  rw [magnitude_zero.lt_iff hx, amount_zero]

theorem magnitude_of_isZero (h : Scalar.IsZero x) : Magnitude x ∧ amount x = 0 := by
  obtain ⟨s, hs⟩ := isZero_iff.1 h
  refine ⟨⟨(Bool.and_eq_true_iff.1 h).2, ?_⟩, ?_⟩
  · rw [isFinite_eq, hs]
    rfl
  · rw [amount, hs]

theorem Magnitude.of_le (hx : Magnitude x) (hz : Scalar.le Scalar.zero z = true)
    (hle : Scalar.le z x = true) : Magnitude z :=
  ⟨hz, isFinite_of_le hz hle hx.finite⟩

/-- What is above one is a magnitude, or infinity, and then a quotient by it is zero. -/
theorem magnitude_or_isZero_div (hr : Scalar.lt Scalar.one r = true) :
    Magnitude r ∧ successor ≤ amount r ∨ ∀ x, Magnitude x → Scalar.IsZero (x / r) := by
  rcases unpack_of_one_lt hr with hinfinite | ⟨m, e, hm, hx⟩
  · refine .inr fun x hx => ?_
    rw [div_eq, hinfinite]
    rcases hx.unpack_cases with ⟨s, hs⟩ | ⟨m, e, hm, hs⟩ <;> rw [hs] <;> exact isZero_pack rfl
  · obtain ⟨hmagnitude, hge⟩ := magnitude_of_one_lt hr hx
    refine .inl ⟨hmagnitude, ?_⟩
    rwa [amount, hx]

theorem one_lt_of_successor_le {v : ℚ} (h : successor ≤ v) : 1 < v := by
  rw [successor_eq] at h
  linarith [show (0 : ℚ) < 1 / 2 ^ 52 by positivity]

/-- A step over a factor above one is a step that is not larger. -/
theorem shrink_le (hx : Magnitude x) (hr : Scalar.lt Scalar.one r = true) :
    Magnitude (x / r) ∧ Scalar.le (x / r) x = true := by
  rcases magnitude_or_isZero_div hr with ⟨hmagnitude, hge⟩ | hzero
  · have hone := one_lt_of_successor_le hge
    have hrounded := isRounded_div hx hmagnitude (by linarith)
    have hx₀ : (0 : ℚ) ≤ amount x := (magnitude_zero.le_iff hx).1 hx.zero_le
    have hquotient : 0 ≤ amount x / amount r := div_nonneg hx₀ (by linarith)
    have hle := hrounded.le hx (div_le_self hx₀ hone.le)
    exact ⟨hx.of_le (hrounded.ge magnitude_zero hquotient) hle, hle⟩
  · have hmagnitude := (magnitude_of_isZero (hzero x hx)).1
    exact ⟨hmagnitude, OrderedScalar.le_trans (Bool.and_eq_true_iff.1 (hzero x hx)).1 hx.zero_le⟩

theorem shrink_mono (hx : Magnitude x) (hy : Magnitude y) (hr : Scalar.lt Scalar.one r = true)
    (hle : Scalar.le x y = true) : Scalar.le (x / r) (y / r) = true := by
  rcases magnitude_or_isZero_div hr with ⟨hmagnitude, hge⟩ | hzero
  · have hpos : 0 < amount r := one_pos.trans (one_lt_of_successor_le hge)
    exact (isRounded_div hx hmagnitude hpos).mono (isRounded_div hy hmagnitude hpos)
      (div_le_div_of_nonneg_right ((hx.le_iff hy).1 hle) hpos.le)
  · exact OrderedScalar.le_trans (Bool.and_eq_true_iff.1 (hzero x hx)).1
      (Bool.and_eq_true_iff.1 (hzero y hy)).2

/-- A step with a full mantissa shrinks. -/
theorem shrink_lt_of_normal (hx : Magnitude x) (hr : Scalar.lt Scalar.one r = true)
    (hnormal : leastNormal < amount x) : Scalar.lt (x / r) x = true := by
  obtain ⟨hquotient, -⟩ := shrink_le hx hr
  rw [hquotient.lt_iff hx]
  rcases magnitude_or_isZero_div hr with ⟨hmagnitude, hge⟩ | hzero
  · obtain ⟨m, e, hstored, he, hxm, -⟩ := hx.exists_stored
    rw [hxm] at hnormal
    -- the step does not stay above the number before it
    obtain ⟨n, d, hn, hd, hlt, hpart⟩ := hstored.exists_pred hnormal
    obtain ⟨y, hy, hyn⟩ := hn.exists_magnitude (hd.trans he)
    have hpos : 0 < amount r := one_pos.trans (one_lt_of_successor_le hge)
    have hle : amount x / amount r ≤ amount y := by
      rw [div_le_iff₀ hpos, hxm, hyn]
      refine hpart.trans (mul_le_mul_of_nonneg_left ?_ (scaled_nonneg n d))
      rwa [← successor_eq]
    have hbelow := (hquotient.le_iff hy).1 ((isRounded_div hx hmagnitude hpos).le hy hle)
    rw [hxm]
    exact hbelow.trans_lt (hyn ▸ hlt)
  · rw [(magnitude_of_isZero (hzero x hx)).2]
    exact (scaled_nonneg _ _).trans_lt hnormal

/-- A magnitude without a full mantissa is a multiple of the least number there is. -/
theorem Magnitude.exists_multiple (hx : Magnitude x) (h : amount x ≤ leastNormal) :
    ∃ m, amount x = scaled m (-1074) := by
  obtain ⟨m, e, hstored, -, hxm, -⟩ := hx.exists_stored
  obtain rfl : e = -1074 :=
    le_antisymm (hstored.exponent_le stored_leastNormal (hxm ▸ h)) hstored.ge
  exact ⟨m, hxm⟩

/-- If a factor is enough to bring a number of units down by one half of a unit, then it brings a
larger number down by more. -/
theorem lt_mul_of_le_mul {k l : ℕ} {ρ : ℚ} (hkl : k < l) (h : 2 * (k + 1 : ℚ) ≤ (2 * k + 1) * ρ) :
    2 * (l + 1 : ℚ) < (2 * l + 1) * ρ := by
  have hkl' : (k : ℚ) < l := Nat.cast_lt.2 hkl
  have hk : (0 : ℚ) < 2 * k + 1 := by positivity
  refine lt_of_mul_lt_mul_left ?_ hk.le
  calc (2 * k + 1 : ℚ) * (2 * (l + 1)) < (2 * l + 1) * (2 * (k + 1)) := by linarith
    _ ≤ (2 * l + 1) * ((2 * k + 1) * ρ) := mul_le_mul_of_nonneg_left h (by positivity)
    _ = (2 * k + 1) * ((2 * l + 1) * ρ) := by ring

/-- A multiple of the least number shrinks only if it loses one half of that number at least. The
larger of two multiples loses more. -/
theorem shrink_lt_of_multiple {m n : ℕ} (hx : Magnitude x) (hy : Magnitude y) (hr : Magnitude r)
    (hpos : 1 < amount r) (hxm : amount x = scaled m (-1074)) (hyn : amount y = scaled n (-1074))
    (hmn : m < n) (hsmall : amount y ≤ leastNormal) (hlt : amount (x / r) < amount x) :
    amount (y / r) < amount y := by
  have hr₀ : 0 < amount r := one_pos.trans hpos
  have hle : amount x ≤ amount y := by
    rw [hxm, hyn, scaled_le_scaled_iff]
    exact hmn.le
  have hsmall' : ∀ z, amount z ≤ leastNormal → amount z / amount r ≤ leastNormal := by
    intro z hz
    rw [div_le_iff₀ hr₀]
    exact hz.trans (le_mul_of_one_le_right (scaled_nonneg _ _) hpos.le)
  obtain ⟨em, hkeeps, hxr⟩ := (isRounded_div hx hr hr₀).exists_keeps
    (hsmall' x (hle.trans hsmall))
  obtain ⟨em', hkeeps', hyr⟩ := (isRounded_div hy hr hr₀).exists_keeps (hsmall' y hsmall)
  rw [hxr, hxm, scaled_lt_scaled_iff] at hlt
  rw [hyr, hyn, scaled_lt_scaled_iff]
  obtain ⟨k, rfl⟩ : ∃ k, m = k + 1 := Nat.exists_eq_succ_of_ne_zero (by omega)
  obtain ⟨l, rfl⟩ : ∃ l, n = l + 1 := Nat.exists_eq_succ_of_ne_zero (by omega)
  -- what the smaller one has lost
  have hbelow : amount x / amount r ≤ scaled (2 * k + 1) (-1074 - 1) := not_lt.1 fun habove =>
    (hkeeps.lt_rounded_of_lt habove).not_ge (by omega)
  refine Nat.lt_succ_of_le (hkeeps'.rounded_le_of_lt ?_)
  rw [hxm, div_le_iff₀ hr₀, scaled_eq_scaled_two_mul] at hbelow
  rw [hyn, div_lt_iff₀ hr₀, scaled_eq_scaled_two_mul]
  -- in halves of the least number
  obtain ⟨unit, hunit⟩ : ∃ unit, scaled 1 (-1074 - 1) = unit := ⟨_, rfl⟩
  have hunits : ∀ n, scaled n (-1074 - 1) = n * unit := fun n => by
    rw [← hunit, scaled, scaled, Nat.cast_one, one_mul]
  have hpositive : 0 < unit := hunit ▸ scaled_pos one_pos _
  rw [hunits, hunits, mul_right_comm, mul_le_mul_iff_left₀ hpositive] at hbelow
  rw [hunits, hunits, mul_right_comm, mul_lt_mul_iff_left₀ hpositive]
  push_cast at hbelow ⊢
  exact lt_mul_of_le_mul (by omega) hbelow

/-- **Where a step shrinks, a larger one does.** -/
theorem shrink_lt_of_le (hx : Magnitude x) (hy : Magnitude y)
    (hr : Scalar.lt Scalar.one r = true) (hle : Scalar.le x y = true)
    (hlt : Scalar.lt (x / r) x = true) : Scalar.lt (y / r) y = true := by
  obtain ⟨hxr, -⟩ := shrink_le hx hr
  obtain ⟨hyr, -⟩ := shrink_le hy hr
  rw [hxr.lt_iff hx] at hlt
  rw [hx.le_iff hy] at hle
  rcases lt_or_ge leastNormal (amount y) with hnormal | hsmall
  · exact shrink_lt_of_normal hy hr hnormal
  · rw [hyr.lt_iff hy]
    rcases hle.lt_or_eq with hxy | hxy
    · rcases magnitude_or_isZero_div hr with ⟨hmagnitude, hge⟩ | hzero
      · obtain ⟨m, hxm⟩ := hx.exists_multiple (hle.trans hsmall)
        obtain ⟨n, hyn⟩ := hy.exists_multiple hsmall
        rw [hxm, hyn, scaled_lt_scaled_iff] at hxy
        exact shrink_lt_of_multiple hx hy hmagnitude (one_lt_of_successor_le hge) hxm hyn hxy
          hsmall hlt
      · rw [(magnitude_of_isZero (hzero y hy)).2]
        exact ((magnitude_zero.le_iff hx).1 hx.zero_le).trans_lt hxy
    · have hback := shrink_mono hy hx hr ((hy.le_iff hx).2 hxy.ge)
      exact (((hyr.le_iff hxr).1 hback).trans_lt hlt).trans_eq hxy

theorem unpack_pack_infinity (s : Float.Model.UnpackedFloat.Sign) :
    (Float.Model.pack (.infinity s)).unpack = .infinity s := by
  cases s <;> rfl

/-- The largest finite number. -/
def largest : Float := 1.7976931348623157e308

theorem magnitude_largest : Magnitude largest := ⟨by decide +kernel, by decide +kernel⟩

/-- The place of the largest finite number. -/
theorem place_largest : place? largest.toModel.unpack =
    some (toLex (1, toLex (971, (9007199254740991 : ℤ)))) := by decide +kernel

theorem Magnitude.le_largest (hx : Magnitude x) : Scalar.le x largest = true := by
  obtain ⟨m, e, hstored, he, -, hplace⟩ := hx.exists_stored
  have hlt := hstored.lt
  rw [Binary64.le_iff, hplace, place_unpacked, place_largest]
  refine ⟨_, rfl, _, rfl, ?_⟩
  split
  · simp [Prod.Lex.le_iff]
  · simp only [Prod.Lex.le_iff, ofLex_toLex, lt_irrefl, false_or, true_and]
    omega

theorem abs_largest : Scalar.abs largest = largest := by decide +kernel

theorem abs_zero_eq : Scalar.abs (Scalar.zero : Float) = Scalar.zero := by decide +kernel

theorem magnitude_two : Magnitude (Scalar.two : Float) := ⟨by decide +kernel, by decide +kernel⟩

/-- The magnitude of a finite number. -/
theorem magnitude_abs (hx : Scalar.isFinite x = true) : Magnitude (Scalar.abs x) := by
  have hfinite : Scalar.isFinite (Scalar.abs x) = true := by
    rw [isFinite_eq] at hx ⊢
    rw [abs_eq]
    show (Float.Model.pack _).unpack.isFinite = true
    cases hu : x.toModel.unpack with
    | notANumber => rw [hu] at hx; cases hx
    | infinity s => rw [hu] at hx; cases hx
    | zero s => cases s <;> rfl
    | finite s m e hm =>
        obtain ⟨hstored, he⟩ := bounds_of_unpack hu
        show (Float.Model.pack (.finite .positive m e hm)).unpack.isFinite = true
        rw [hstored.unpack_pack_of_le hm _ he]
        rfl
  rcases isNaN_or_zero_le_iff.2 (notBelow_abs x) with hnan | hle
  · rw [MeasuredScalar.isNaN_of_isFinite hfinite] at hnan
    cases hnan
  · exact ⟨hle, hfinite⟩

end Binary64

open Binary64

namespace DiffOptions

variable {o : DiffOptions Float} {start start' x : Float} {n : ℕ}

/-! ### Safe steps -/

/-- A step that can be taken and divided by: both the step and the divisor are positive and
finite. -/
structure Safe (o : DiffOptions Float) (step : Float) : Prop where
  step_pos : Scalar.lt Scalar.zero step = true
  step_finite : Scalar.isFinite step = true
  divisor_pos : Scalar.lt Scalar.zero (o.divisor step) = true
  divisor_finite : Scalar.isFinite (o.divisor step) = true

/-- From some start on, so many steps are safe and smaller and smaller. -/
structure SafeSteps (o : DiffOptions Float) (start : Float) (n : ℕ) : Prop where
  safe : ∀ k < n, o.Safe (stepAt o start k)
  decreasing : ∀ k, k + 1 < n →
    Scalar.lt (stepAt o start (k + 1)) (stepAt o start k) = true

theorem le_divisor (hx : Scalar.le Scalar.zero x = true) : Scalar.le x (o.divisor x) = true := by
  unfold divisor
  split
  · exact OrderedScalar.le_self_of_le_right hx
  · exact le_two_mul hx

theorem divisor_mono (hx : Magnitude start) (hy : Magnitude start')
    (hle : Scalar.le start start' = true) :
    Scalar.le (o.divisor start) (o.divisor start') = true := by
  unfold divisor
  split
  · exact hle
  · refine (isRounded_mul magnitude_two hx).mono (isRounded_mul magnitude_two hy) ?_
    exact mul_le_mul_of_nonneg_left ((hx.le_iff hy).1 hle)
      ((magnitude_zero.le_iff magnitude_two).1 magnitude_two.zero_le)

/-- Below a step with a finite divisor, positive steps are safe. -/
theorem safe_of_le (hx : Magnitude start) (hpos : Scalar.lt Scalar.zero start = true)
    (hy : Magnitude start') (hle : Scalar.le start start' = true)
    (hfinite : Scalar.isFinite (o.divisor start') = true) : o.Safe start := by
  have hgrow := le_divisor (o := o) hx.zero_le
  have hdivisor := OrderedScalar.le_trans hx.zero_le hgrow
  exact ⟨hpos, hx.finite, Scalar.lt_of_lt_of_le hpos hgrow,
    isFinite_of_le hdivisor (divisor_mono hx hy hle) hfinite⟩

theorem magnitude_stepAt (h : Magnitude start) (k : ℕ) : Magnitude (stepAt o start k) := by
  induction k with
  | zero => exact h
  | succ k ih => exact (shrink_le ih o.one_lt_riddersShrink).1

theorem stepAt_antitone (h : Magnitude start) {j k : ℕ} (hjk : j ≤ k) :
    Scalar.le (stepAt o start k) (stepAt o start j) = true := by
  induction hjk with
  | refl => exact OrderedScalar.le_self_of_le_right (magnitude_stepAt h j).zero_le
  | step _ ih =>
      exact OrderedScalar.le_trans (shrink_le (magnitude_stepAt h _) o.one_lt_riddersShrink).2 ih

theorem stepAt_le (h : Magnitude start) (k : ℕ) :
    Scalar.le (stepAt o start k) start = true := by
  have hle := stepAt_antitone (o := o) h k.zero_le
  rwa [Ridders.stepAt_zero] at hle

theorem stepAt_mono (h : Magnitude start) (h' : Magnitude start')
    (hle : Scalar.le start start' = true) (k : ℕ) :
    Scalar.le (stepAt o start k) (stepAt o start' k) = true := by
  induction k with
  | zero => exact hle
  | succ k ih =>
      exact shrink_mono (magnitude_stepAt h k) (magnitude_stepAt h' k) o.one_lt_riddersShrink ih

theorem SafeSteps.safe_start (h : o.SafeSteps start (n + 1)) : o.Safe start := by
  have hfirst := h.safe 0 n.succ_pos
  rwa [Ridders.stepAt_zero] at hfirst

theorem Safe.magnitude (h : o.Safe x) : Magnitude x :=
  ⟨(Scalar.lt_eq_true_iff.1 h.step_pos).1, h.step_finite⟩

/-- **The start and the last step decide**: whether the divisor is finite, and whether the last step
is positive and smaller than the one before. -/
theorem safeSteps_iff (hstart : Scalar.le Scalar.zero start = true) :
    o.SafeSteps start (n + 1) ↔ Scalar.isFinite (o.divisor start) = true ∧
      Scalar.lt Scalar.zero (stepAt o start n) = true ∧
      (0 < n → Scalar.lt (stepAt o start n) (stepAt o start (n - 1)) = true) := by
  constructor
  · intro h
    refine ⟨h.safe_start.divisor_finite, (h.safe n n.lt_succ_self).step_pos, fun hn => ?_⟩
    obtain ⟨k, rfl⟩ : ∃ k, n = k + 1 := ⟨n - 1, by omega⟩
    rw [Nat.add_sub_cancel]
    exact h.decreasing k (Nat.lt_succ_self _)
  · rintro ⟨hfinite, hpos, hlast⟩
    have hmagnitude : Magnitude start := ⟨hstart, isFinite_of_le hstart (le_divisor hstart) hfinite⟩
    refine ⟨fun k hk => ?_, fun k hk => ?_⟩
    · have hstep := magnitude_stepAt (o := o) hmagnitude k
      refine safe_of_le hstep ?_ hmagnitude (stepAt_le hmagnitude k) hfinite
      exact Scalar.lt_of_lt_of_le hpos (stepAt_antitone hmagnitude (Nat.lt_succ_iff.1 hk))
    · -- where the last step shrinks, the larger ones do
      obtain ⟨l, rfl⟩ : ∃ l, n = l + 1 := ⟨n - 1, by omega⟩
      have hle : k ≤ l := by omega
      have hshrink := hlast l.succ_pos
      rw [Nat.add_sub_cancel] at hshrink
      exact shrink_lt_of_le (magnitude_stepAt hmagnitude l) (magnitude_stepAt hmagnitude k)
        o.one_lt_riddersShrink (stepAt_antitone hmagnitude hle) hshrink

/-- **Larger starts are as safe**, as long as the divisor is finite. -/
theorem SafeSteps.of_le (h : o.SafeSteps start (n + 1)) (h' : Magnitude start')
    (hle : Scalar.le start start' = true)
    (hfinite : Scalar.isFinite (o.divisor start') = true) : o.SafeSteps start' (n + 1) := by
  have hmagnitude := h.safe_start.magnitude
  refine ⟨fun k hk => ?_, fun k hk => ?_⟩
  · have hstep := magnitude_stepAt (o := o) h' k
    refine safe_of_le hstep ?_ h' (stepAt_le h' k) hfinite
    exact Scalar.lt_of_lt_of_le (h.safe k hk).step_pos (stepAt_mono hmagnitude h' hle k)
  · exact shrink_lt_of_le (magnitude_stepAt hmagnitude k) (magnitude_stepAt h' k)
      o.one_lt_riddersShrink (stepAt_mono hmagnitude h' hle k) (h.decreasing k hk)

/-! ### Starts -/

theorem isNaN_leastStep (o : DiffOptions Float) : Scalar.isNaN o.leastStep = false :=
  Scalar.isNaN_eq_false_iff.2
    (OrderedScalar.le_self_of_le_right (Scalar.lt_eq_true_iff.1 o.zero_lt_leastStep).1)

/-- A finite fraction of a finite magnitude is a number. -/
theorem isNaN_mul_abs (hf : Magnitude o.fraction) (hx : Scalar.isFinite x = true) :
    Scalar.isNaN (o.fraction * Scalar.abs x) = false := by
  have hpos : ∀ {y}, Magnitude y → 0 ≤ amount y := fun hy =>
    (magnitude_zero.le_iff hy).1 hy.zero_le
  have hproduct := isRounded_mul hf (magnitude_abs hx)
  exact Scalar.isNaN_eq_false_iff.2 (OrderedScalar.le_self_of_le_right
    (hproduct.ge magnitude_zero (mul_nonneg (hpos hf) (hpos (magnitude_abs hx)))))

/-- The start is within a bound exactly when the product and the least step are. -/
theorem stepSize_le_iff (hf : Magnitude o.fraction) (hx : Scalar.isFinite x = true) {t : Float} :
    Scalar.le (o.stepSize x) t = true ↔
      Scalar.le (o.fraction * Scalar.abs x) t = true ∧ Scalar.le o.leastStep t = true := by
  rw [stepSize_eq]
  exact Scalar.orLarger_le_iff (isNaN_mul_abs hf hx) o.isNaN_leastStep

theorem le_stepSize (hf : Magnitude o.fraction) (hx : Scalar.isFinite x = true) :
    Scalar.le (o.fraction * Scalar.abs x) (o.stepSize x) = true ∧
      Scalar.le o.leastStep (o.stepSize x) = true := by
  rw [← stepSize_le_iff hf hx, stepSize_eq]
  exact Scalar.isNaN_eq_false_iff.1 (Scalar.isNaN_orLarger (isNaN_mul_abs hf hx) o.isNaN_leastStep)

theorem stepSize_mono (hf : Magnitude o.fraction) {y : Float} (hx : Scalar.isFinite x = true)
    (hy : Scalar.isFinite y = true) (hle : Scalar.le (Scalar.abs x) (Scalar.abs y) = true) :
    Scalar.le (o.stepSize x) (o.stepSize y) = true := by
  obtain ⟨hproduct, hleast⟩ := le_stepSize hf hy
  refine (stepSize_le_iff hf hx).2 ⟨OrderedScalar.le_trans ?_ hproduct, hleast⟩
  refine (isRounded_mul hf (magnitude_abs hx)).mono (isRounded_mul hf (magnitude_abs hy)) ?_
  exact mul_le_mul_of_nonneg_left (((magnitude_abs hx).le_iff (magnitude_abs hy)).1 hle)
    ((magnitude_zero.le_iff hf).1 hf.zero_le)

/-- With an infinite fraction, the start of the largest number is infinite. -/
theorem stepSize_largest_of_infinite (h : o.fraction.toModel.unpack = .infinity .positive) :
    (o.stepSize largest).toModel.unpack = .infinity .positive := by
  have hproduct : (o.fraction * Scalar.abs largest).toModel.unpack = .infinity .positive := by
    rw [abs_largest, mul_eq, h]
    rcases magnitude_largest.unpack_cases with ⟨s, hs⟩ | ⟨m, e, hm, hs⟩
    · have hplace := place_largest
      rw [hs] at hplace
      cases hplace
    · rw [hs]
      exact unpack_pack_infinity .positive
  have hleast : Scalar.le o.leastStep (o.fraction * Scalar.abs largest) = true := by
    obtain ⟨p, hp⟩ := (le_self_iff _).1 (Scalar.isNaN_eq_false_iff.1 o.isNaN_leastStep)
    rw [Binary64.le_iff, hproduct]
    exact ⟨p, hp, _, rfl, place_le_infinity hp⟩
  rw [stepSize_eq, Scalar.orLarger, Scalar.lt, hleast]
  simpa using hproduct

/-- The start of the largest number tells whether the fraction is finite. -/
theorem magnitude_fraction (h : Scalar.isFinite (o.divisor (o.stepSize largest)) = true) :
    Magnitude o.fraction := by
  obtain ⟨hle, hnot⟩ := Scalar.lt_eq_true_iff.1 o.zero_lt_fraction
  refine ⟨hle, ?_⟩
  rcases unpack_of_zero_le hle with ⟨s, hs⟩ | ⟨m, e, hm, hs⟩ | hinfinite
  · rw [isFinite_eq, hs]
    rfl
  · rw [isFinite_eq, hs]
    rfl
  · have hstart := stepSize_largest_of_infinite hinfinite
    have hzero : Scalar.le Scalar.zero (o.stepSize largest) = true := by
      rw [Binary64.le_iff, place_zero, hstart]
      exact ⟨_, rfl, _, rfl, place_le_infinity place_zero⟩
    have hfinite := isFinite_of_le hzero (le_divisor hzero) h
    rw [isFinite_eq, hstart] at hfinite
    cases hfinite

/-- **Two starts decide**: if the start of the largest number has a finite divisor, and if the steps
from the least step are safe, then the steps of every finite number are safe. -/
theorem safeSteps_of_settings (htop : Scalar.isFinite (o.divisor (o.stepSize largest)) = true)
    (hleast : o.SafeSteps o.leastStep (n + 1)) (hx : Scalar.isFinite x = true) :
    o.SafeSteps (o.stepSize x) (n + 1) := by
  have hf := magnitude_fraction htop
  have hbelow : ∀ {y}, Scalar.isFinite y = true →
      Scalar.le Scalar.zero (o.stepSize y) = true := fun hy =>
    OrderedScalar.le_trans (Scalar.lt_eq_true_iff.1 o.zero_lt_leastStep).1 (le_stepSize hf hy).2
  have hlargest := hbelow magnitude_largest.finite
  have hmagnitude : Magnitude (o.stepSize largest) :=
    ⟨hlargest, isFinite_of_le hlargest (le_divisor hlargest) htop⟩
  have hle : Scalar.le (o.stepSize x) (o.stepSize largest) = true := by
    refine stepSize_mono hf hx magnitude_largest.finite ?_
    rw [abs_largest]
    exact (magnitude_abs hx).le_largest
  have hstart := hmagnitude.of_le (hbelow hx) hle
  exact hleast.of_le hstart (le_stepSize hf hx).2 (isFinite_of_le
    (OrderedScalar.le_trans hstart.zero_le (le_divisor hstart.zero_le))
    (divisor_mono hstart hmagnitude hle) htop)

/-- The start of zero is the least step. -/
theorem stepSize_zero (hf : Magnitude o.fraction) : o.stepSize Scalar.zero = o.leastStep := by
  have habs : Scalar.IsZero (Scalar.abs (Scalar.zero : Float)) := by
    show Scalar.eq _ _ = true
    decide +kernel
  have hlt : Scalar.lt (o.fraction * Scalar.abs Scalar.zero) o.leastStep = true :=
    Scalar.lt_of_le_of_lt (Bool.and_eq_true_iff.1 (mul_isZero hf.finite habs)).1
      o.zero_lt_leastStep
  rw [stepSize_eq, Scalar.orLarger, if_pos hlt]

end DiffOptions

/-! ### Scales -/

/-- With finite entries, all scales are magnitudes. -/
theorem magnitude_of_tangentScales {σ : Type} {shown : String} {block scales : List Float}
    {manifold : Option (Manifold σ Float)} (hblock : ∀ x ∈ block, Scalar.isFinite x = true)
    (h : tangentScales shown block manifold = .ok (some scales)) :
    ∀ scale ∈ scales, Magnitude scale := by
  have habs : ∀ y ∈ block.map Scalar.abs, Magnitude y := by
    intro y hy
    obtain ⟨x, hx, rfl⟩ := List.mem_map.1 hy
    exact magnitude_abs (hblock x hx)
  cases manifold with
  | none =>
      obtain rfl : block.map Scalar.abs = scales := Option.some.inj (Except.ok.inj h)
      exact habs
  | some m =>
      intro scale hscale
      rw [eq_largest_of_tangentScales h scale hscale]
      exact List.forall_mem_cons.2 ⟨magnitude_zero, habs⟩ _ (Scalar.largest_mem _ _)

/-- Two safe steps have a finite factor between them. -/
theorem DiffOptions.SafeSteps.isFinite_riddersShrink {o : DiffOptions Float} {start : Float}
    {n : ℕ} (h : o.SafeSteps start n) (hn : 1 < n) : Scalar.isFinite o.riddersShrink = true := by
  obtain ⟨k, rfl⟩ : ∃ k, n = k + 1 := ⟨n - 1, by omega⟩
  have hstart := h.safe_start.magnitude
  rcases magnitude_or_isZero_div o.one_lt_riddersShrink with ⟨hmagnitude, -⟩ | hzero
  · exact hmagnitude.finite
  · obtain ⟨hquotient, hamount⟩ := magnitude_of_isZero (hzero start hstart)
    have hpos := (h.safe 1 hn).step_pos
    rw [show stepAt o start 1 = start / o.riddersShrink from rfl, zero_lt_iff hquotient,
      hamount] at hpos
    exact absurd hpos (lt_irrefl _)

/-! ### The standard settings -/

theorem DiffOptions.safeSteps_leastStep_standard :
    DiffOptions.standard.SafeSteps DiffOptions.standard.leastStep 10 :=
  (safeSteps_iff (by decide +kernel)).2
    ⟨by decide +kernel, by decide +kernel, fun _ => by decide +kernel⟩

/-! ### All settings -/

/-- **The settings decide for all blocks.** Whatever the finite entries of a block are, the first
steps of all of its columns are positive, finite and smaller and smaller, and so is what the
differences are divided by, exactly if two tests of the settings succeed: the start of the largest
number has a finite divisor, and the steps from the least step are such steps. The factors of an
extrapolation are always above one, and they are finite if the shrink factor is, which the second
test includes. No column depends on a difference with any other step. -/
theorem step_safety {σ : Type} (o : DiffOptions Float) (n : ℕ) :
    ((∀ (shown : String) (block : List Float) (manifold : Option (Manifold σ Float))
        (scales : List Float), (∀ x ∈ block, Scalar.isFinite x = true) →
        tangentScales shown block manifold = .ok (some scales) →
        ∀ scale ∈ scales, o.SafeSteps (o.stepSize scale) (n + 1)) ↔
      Scalar.isFinite (o.divisor (o.stepSize largest)) = true ∧
        o.SafeSteps o.leastStep (n + 1)) ∧
    (∀ (j : ℕ) (factor : Float), 0 < j →
      Scalar.power o.riddersShrink (2 * (j : ℤ)) = .ok factor →
      Scalar.lt Scalar.one factor = true ∧
        Scalar.isFinite factor = Scalar.isFinite o.riddersShrink) ∧
    (0 < n → o.SafeSteps o.leastStep (n + 1) → Scalar.isFinite o.riddersShrink = true) ∧
    ∀ (site : Site σ Float) (base : List Float) (i : ℕ) (scale : Float)
      (difference : Float → Action σ (List Float)),
      (∀ k < o.levels, difference (stepAt o (o.stepSize scale) k) =
        site.difference o base i (stepAt o (o.stepSize scale) k)) →
      o.along difference (o.stepSize scale) = site.column o base i scale := by
  refine ⟨⟨fun h => ?_, ?_⟩, fun j factor hj hpower => ?_, fun hn h => ?_,
    fun site base i scale difference h => site.column_congr o base i scale h⟩
  · have heach : ∀ x, Scalar.isFinite x = true →
        o.SafeSteps (o.stepSize (Scalar.abs x)) (n + 1) := fun x hx =>
      h "" [x] none [Scalar.abs x] (by simpa using hx) rfl _ List.mem_cons_self
    have htop := (heach largest magnitude_largest.finite).safe_start.divisor_finite
    rw [abs_largest] at htop
    have hzero := heach Scalar.zero magnitude_zero.finite
    rw [abs_zero_eq, DiffOptions.stepSize_zero (DiffOptions.magnitude_fraction htop)] at hzero
    exact ⟨htop, hzero⟩
  · rintro ⟨htop, hleast⟩ shown block manifold scales hblock hscales scale hscale
    exact DiffOptions.safeSteps_of_settings htop hleast
      (magnitude_of_tangentScales hblock hscales scale hscale).finite
  · exact one_lt_power o.one_lt_riddersShrink (Nat.mul_pos two_pos hj) (by exact_mod_cast hpower)
  · exact h.isFinite_riddersShrink (by omega)

/-- At the standard settings, a step from two or from zero is safe ten times over, and none of the
steps from two is below one millionth. -/
theorem step_safety_standard :
    let site : Site Unit Float :=
      ⟨plateau, [[2.0, 0.0]], 0, (Setting.count 0).shown, [2.0, 0.0], none, 2⟩
    Scalar.isFinite (DiffOptions.standard.divisor (DiffOptions.standard.stepSize largest)) = true ∧
    DiffOptions.standard.SafeSteps DiffOptions.standard.leastStep 10 ∧
    DiffOptions.standard.SafeSteps (DiffOptions.standard.stepSize 2.0) 10 ∧
    DiffOptions.standard.SafeSteps (DiffOptions.standard.stepSize 0.0) 10 ∧
    (∃ factor : Float, Scalar.power DiffOptions.standard.riddersShrink (2 * ((9 : ℕ) : ℤ)) =
      .ok factor ∧ Scalar.lt Scalar.one factor = true ∧ Scalar.isFinite factor = true) ∧
    DiffOptions.standard.along (fun step =>
      if Scalar.lt step 1e-6 then throw .overflow
      else site.difference DiffOptions.standard [] 0 step) (DiffOptions.standard.stepSize 2.0) =
        site.column DiffOptions.standard [] 0 2.0 := by
  intro site
  have htop : Scalar.isFinite
      (DiffOptions.standard.divisor (DiffOptions.standard.stepSize largest)) = true := by
    decide +kernel
  have hleast := DiffOptions.safeSteps_leastStep_standard
  have hscales : tangentScales site.shown site.block site.manifold = .ok (some [2.0, 0.0]) := by
    decide +kernel
  obtain ⟨hsteps, hfactors, hshrink, hcolumn⟩ :=
    step_safety (σ := Unit) DiffOptions.standard 9
  have hsafe := hsteps.2 ⟨htop, hleast⟩ site.shown site.block site.manifold _
    (by decide +kernel) hscales
  obtain ⟨factor, hpower⟩ : ∃ factor : Float,
      Scalar.power DiffOptions.standard.riddersShrink (2 * ((9 : ℕ) : ℤ)) = .ok factor :=
    ⟨262144.0, by decide +kernel⟩
  obtain ⟨hlt, hfinite⟩ := hfactors 9 factor (by decide) hpower
  refine ⟨htop, hleast, hsafe 2.0 (by simp), hsafe 0.0 (by simp),
    ⟨factor, hpower, hlt, hfinite.trans (hshrink (by decide) hleast)⟩, ?_⟩
  refine hcolumn site [] 0 2.0 _ fun k hk => if_neg ?_
  have hlarge : ∀ k < 10, ¬Scalar.lt
      (stepAt DiffOptions.standard (DiffOptions.standard.stepSize 2.0) k) 1e-6 = true := by
    decide +kernel
  exact hlarge k hk

/-- Accepted settings whose least step is the least number there is. -/
def vanishing : DiffOptions Float :=
  { DiffOptions.standard with
    riddersMinStep := 5e-324
    riddersMinStep_pos := by decide +kernel }

/-- **A step vanishes**: at zero, one half of the least step is nothing. This is the second step of
an extrapolation, which never makes do with one. -/
theorem step_vanishes :
    ¬∀ (o : DiffOptions Float) (shown : String) (block : List Float)
      (manifold : Option (Manifold Unit Float)) (scales : List Float),
      o.scheme = .ridders → (∀ x ∈ block, Scalar.isFinite x = true) →
      tangentScales shown block manifold = .ok (some scales) →
      ∀ scale ∈ scales, o.SafeSteps (o.stepSize scale) 2 := by
  intro h
  have hscales : tangentScales (Setting.count 0).shown [0.0]
      (none : Option (Manifold Unit Float)) = .ok (some [0.0]) := by decide +kernel
  have hsafe := h vanishing _ _ none _ rfl (by decide +kernel) hscales 0.0 List.mem_cons_self
  have hzero : Scalar.lt Scalar.zero (stepAt vanishing (vanishing.stepSize 0.0) 1) = false := by
    decide +kernel
  rw [(hsafe.safe 1 (by decide)).step_pos] at hzero
  cases hzero

end JacobianAudit
