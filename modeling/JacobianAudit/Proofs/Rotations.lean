/-
**Steps of quaternions are rotations.**

The product of quaternions that the library computes with is read, in exact arithmetic, as the
product of Hamilton's quaternions over the field, and inherits its laws. A step multiplies by an
exponential, which is a unit as soon as the length of the tangent vector is a root of its square and
the sine and the cosine of the length lie on the unit circle. Nothing else is assumed of the three,
and the point need not be a unit.

Main definitions:

* `JacobianAudit.FieldReading.hamilton` — what a quaternion is read as;
* `JacobianAudit.FieldReading.squaredNorm` — the sum of the squares of the entries;
* `JacobianAudit.Quaternion.times` — the product of lists of four numbers;
* `JacobianAudit.Ideal` — real numbers as scalars.

Main results:

* `JacobianAudit.FieldReading.hamilton_mul` — **the product is Hamilton's product**;
* `JacobianAudit.Quaternion.squaredNorm_exponential` — the exponential is a unit;
* `JacobianAudit.Quaternion.plus_is_rotation` — **steps keep norms and commute with products from
  the right**, and the derivative of the step has orthogonal columns as long as the point.
-/

import Mathlib.Algebra.Quaternion
import Mathlib.Analysis.Complex.Trigonometric
import Mathlib.Analysis.Real.Sqrt
import JacobianAudit.Proofs.Tangents

set_option autoImplicit false

open scoped Quaternion

namespace JacobianAudit

/-! ### Hamilton's quaternions -/

namespace FieldReading

variable {α K : Type} [Scalar α] [Field K] (v : FieldReading α K)

/-- The quaternion over the field that a quaternion is read as. -/
@[simps]
def hamilton (q : Quaternion α) : ℍ[K] where
  re := v.value q.w
  imI := v.value q.x
  imJ := v.value q.y
  imK := v.value q.z

/-- The sum of the squares of the entries. -/
def squaredNorm (xs : List α) : K := (xs.map fun x => v.value x ^ 2).sum

theorem hamilton_injective : Function.Injective v.hamilton := by
  intro p q h
  have hw : p.w = q.w := v.injective (congrArg QuaternionAlgebra.re h)
  have hx : p.x = q.x := v.injective (congrArg QuaternionAlgebra.imI h)
  have hy : p.y = q.y := v.injective (congrArg QuaternionAlgebra.imJ h)
  have hz : p.z = q.z := v.injective (congrArg QuaternionAlgebra.imK h)
  cases p
  cases q
  simp_all only

/-- **The product is Hamilton's product.** -/
theorem hamilton_mul (p q : Quaternion α) :
    v.hamilton (p.mul q) = v.hamilton p * v.hamilton q := by
  ext <;> simp [Quaternion.mul, v.value_add, v.value_sub, v.value_mul]

theorem hamilton_one : v.hamilton ⟨Scalar.one, Scalar.zero, Scalar.zero, Scalar.zero⟩ = 1 := by
  ext <;> simp [v.value_one, v.value_zero]

theorem squaredNorm_toList (q : Quaternion α) :
    v.squaredNorm q.toList = Quaternion.normSq (v.hamilton q) := by
  rw [Quaternion.normSq_def']
  simp [squaredNorm, Quaternion.toList, hamilton, add_assoc]

end FieldReading

/-! ### Products of lists -/

namespace Quaternion

section Times

variable {α K : Type} [Scalar α]

/-- The product of two lists of four numbers. -/
def times (p q : List α) : List α := (mul (ofList p) (ofList q)).toList

/-- The list of the unit. -/
def unit (α : Type) [Scalar α] : List α := [Scalar.one, Scalar.zero, Scalar.zero, Scalar.zero]

@[simp] theorem length_times (p q : List α) : (times p q).length = 4 := rfl

@[simp] theorem ofList_toList (q : Quaternion α) : ofList q.toList = q := rfl

theorem toList_ofList {p : List α} (hp : p.length = 4) : (ofList p).toList = p := by
  obtain ⟨w, x, y, z, rfl⟩ := eq_of_length hp
  rfl

theorem product_eq_times {p q : List α} (hp : p.length = 4) (hq : q.length = 4) :
    product (.vector p) (.vector q) = .ok (.vector (times p q)) := product_vector hp hq

variable [Field K] (v : FieldReading α K)

include v

theorem times_assoc (p q r : List α) : times (times p q) r = times p (times q r) := by
  refine congrArg toList (v.hamilton_injective ?_)
  simp only [times, ofList_toList, v.hamilton_mul, mul_assoc]

theorem unit_times {p : List α} (hp : p.length = 4) : times (unit α) p = p := by
  have hmul : mul (ofList (unit α)) (ofList p) = ofList p := v.hamilton_injective <| by
    rw [v.hamilton_mul]
    exact (congrArg (· * _) v.hamilton_one).trans (one_mul _)
  rw [times, hmul, toList_ofList hp]

theorem times_unit {p : List α} (hp : p.length = 4) : times p (unit α) = p := by
  have hmul : mul (ofList p) (ofList (unit α)) = ofList p := v.hamilton_injective <| by
    rw [v.hamilton_mul]
    exact (congrArg (_ * ·) v.hamilton_one).trans (mul_one _)
  rw [times, hmul, toList_ofList hp]

theorem squaredNorm_times {p q : List α} (hp : p.length = 4) (hq : q.length = 4) :
    v.squaredNorm (times p q) = v.squaredNorm p * v.squaredNorm q := by
  have hnorm : ∀ {xs : List α}, xs.length = 4 →
      v.squaredNorm xs = Quaternion.normSq (v.hamilton (ofList xs)) := fun hxs => by
    rw [← v.squaredNorm_toList, toList_ofList hxs]
  rw [times, v.squaredNorm_toList, v.hamilton_mul, map_mul, hnorm hp, hnorm hq]

end Times

/-! ### Steps -/

section Steps

variable {σ α K : Type} [Scalar α] [Field K] {v : FieldReading α K}

/-- **The exponential is a unit**, whatever stands for the root, the sine and the cosine, as long as
they satisfy their equations at the tangent vector. -/
theorem squaredNorm_exponential {delta : List α} {n : α} (hn : v.value n ≠ 0)
    (hroot : v.value n ^ 2 = v.squaredNorm delta)
    (hcircle : v.value (Scalar.sin n) ^ 2 + v.value (Scalar.cos n) ^ 2 = 1) :
    v.squaredNorm (exponential n delta) = 1 := by
  have hsum : ((delta.map fun x => Scalar.sin n / n * x).map fun x => v.value x ^ 2).sum =
      (v.value (Scalar.sin n) / v.value n) ^ 2 * v.squaredNorm delta := by
    rw [FieldReading.squaredNorm, ← List.sum_map_mul_left, List.map_map]
    refine congrArg List.sum (List.map_congr_left fun x _ => ?_)
    simp only [Function.comp_apply, v.value_mul, v.value_div, mul_pow]
  calc v.squaredNorm (exponential n delta)
      = v.value (Scalar.cos n) ^ 2 + (v.value (Scalar.sin n) / v.value n) ^ 2 *
          v.squaredNorm delta := by rw [← hsum]; rfl
    _ = v.value (Scalar.cos n) ^ 2 + v.value (Scalar.sin n) ^ 2 := by
        rw [← hroot, div_pow, div_mul_cancel₀ _ (pow_ne_zero 2 hn)]
    _ = 1 := by rw [add_comm, hcircle]

variable [LinearOrder K]

/-- A step multiplies by one quaternion, whatever the point is. The quaternion is a unit. -/
theorem exists_plus_eq_times (hv : v.Ordered) {delta : List α} (hl : delta.length = 3)
    (hroot : v.value (norm delta) ^ 2 = v.squaredNorm delta)
    (hcircle : v.value (Scalar.sin (norm delta)) ^ 2 +
      v.value (Scalar.cos (norm delta)) ^ 2 = 1) :
    ∃ turn : List α, turn.length = 4 ∧ v.squaredNorm turn = 1 ∧
      ∀ x : List α, x.length = 4 → (Manifold.quaternion : Manifold σ α).plus (.vector x)
        (.vector delta) = pure (.vector (times turn x)) := by
  rcases hzero : Scalar.eq (norm delta) Scalar.zero with _ | _
  · have hn : v.value (norm delta) ≠ 0 := by
      rw [Ne, ← hv.eq_zero_iff, hzero]
      exact Bool.false_ne_true
    refine ⟨exponential (norm delta) delta, by simp [exponential, hl],
      squaredNorm_exponential hn hroot hcircle, fun x hx => ?_⟩
    unfold Manifold.plus
    simp only [plus_vector hx hl hzero]
    rfl
  · -- a step of length zero stays where it is
    refine ⟨unit α, rfl, by simp [FieldReading.squaredNorm, unit, v.value_one, v.value_zero],
      fun x hx => ?_⟩
    rw [unit_times v hx]
    unfold Manifold.plus
    simp only [plus_of_norm_zero hzero]
    rfl

end Steps

/-! ### Columns of the derivative -/

section Columns

variable {σ α K : Type} [Scalar α] [Field K] {v : FieldReading α K} {x : List α} {t : Tensor α}

/-- The columns of the derivative are orthogonal to the point. -/
theorem column_orthogonal_point (hneg : ∀ y : α, v.value (-y) = -v.value y) (hx : x.length = 4)
    (ht : ∀ c < 4, ∀ i < 3, t.get [c, i] =
      (((ofList x).rows[c]?.bind fun row => row[i]?)).getD Scalar.nan) {i : ℕ} (hi : i < 3) :
    ∑ c ∈ Finset.range 4, v.value (t.get [c, i]) * v.entry x c = 0 := by
  obtain ⟨a, b, c, d, rfl⟩ := eq_of_length hx
  simp only [Finset.sum_range_succ, Finset.sum_range_zero, ht 0 (by decide) i hi,
    ht 1 (by decide) i hi, ht 2 (by decide) i hi, ht 3 (by decide) i hi]
  interval_cases i <;> simp [FieldReading.entry, ofList, rows, hneg] <;> ring

/-- The columns of the derivative are orthogonal to each other, and as long as the point. -/
theorem columns_orthogonal (hneg : ∀ y : α, v.value (-y) = -v.value y) (hx : x.length = 4)
    (ht : ∀ c < 4, ∀ i < 3, t.get [c, i] =
      (((ofList x).rows[c]?.bind fun row => row[i]?)).getD Scalar.nan) {i j : ℕ} (hi : i < 3)
    (hj : j < 3) :
    ∑ c ∈ Finset.range 4, v.value (t.get [c, i]) * v.value (t.get [c, j]) =
      if i = j then v.squaredNorm x else 0 := by
  obtain ⟨a, b, c, d, rfl⟩ := eq_of_length hx
  simp only [Finset.sum_range_succ, Finset.sum_range_zero, ht 0 (by decide) i hi,
    ht 1 (by decide) i hi, ht 2 (by decide) i hi, ht 3 (by decide) i hi, ht 0 (by decide) j hj,
    ht 1 (by decide) j hj, ht 2 (by decide) j hj, ht 3 (by decide) j hj]
  interval_cases i <;> interval_cases j <;>
    simp [FieldReading.squaredNorm, ofList, rows, hneg] <;> ring

end Columns

/-! ### Rotations -/

section Rotation

variable {σ α K : Type} [Scalar α] [Field K] [LinearOrder K] {v : FieldReading α K}

/-- **Steps of quaternions are rotations.** In exact arithmetic the product of quaternions is
associative, has a unit on both sides and multiplies squared norms. So a step along a tangent vector
with a root and a circle keeps the squared norm of every point, and it does not matter whether one
multiplies from the right before the step or after it. The columns of the derivative are
orthogonal to the point and to each other, and as long as the point. -/
theorem plus_is_rotation (hv : v.Ordered) (hneg : ∀ y : α, v.value (-y) = -v.value y) :
    ((∀ p q : List α, p.length = 4 → q.length = 4 →
        product (.vector p) (.vector q) = .ok (.vector (times p q)) ∧
        v.squaredNorm (times p q) = v.squaredNorm p * v.squaredNorm q) ∧
      (∀ p q r : List α, p.length = 4 → q.length = 4 → r.length = 4 →
        times (times p q) r = times p (times q r)) ∧
      ∀ p : List α, p.length = 4 → times (unit α) p = p ∧ times p (unit α) = p) ∧
    (∀ delta : List α, delta.length = 3 →
      v.value (norm delta) ^ 2 = v.squaredNorm delta →
      v.value (Scalar.sin (norm delta)) ^ 2 + v.value (Scalar.cos (norm delta)) ^ 2 = 1 →
      ∀ x : List α, x.length = 4 → ∃ moved : List α, moved.length = 4 ∧
        (Manifold.quaternion : Manifold σ α).plus (.vector x) (.vector delta) =
          pure (.vector moved) ∧
        v.squaredNorm moved = v.squaredNorm x ∧
        ∀ q : List α, q.length = 4 →
          (Manifold.quaternion : Manifold σ α).plus (.vector (times x q)) (.vector delta) =
            pure (.vector (times moved q))) ∧
    ∀ x : List α, x.length = 4 → ∃ t : Tensor α,
      (Manifold.quaternion : Manifold σ α).plusJacobian (.vector x) = pure (.array t) ∧
      t.shape = [4, 3] ∧ ∀ i < 3,
        ∑ c ∈ Finset.range 4, v.value (t.get [c, i]) * v.entry x c = 0 ∧
        ∀ j < 3, ∑ c ∈ Finset.range 4, v.value (t.get [c, i]) * v.value (t.get [c, j]) =
          if i = j then v.squaredNorm x else 0 := by
  refine ⟨⟨fun p q hp hq => ⟨product_eq_times hp hq, squaredNorm_times v hp hq⟩,
    fun p q r _ _ _ => times_assoc v p q r, fun p hp => ⟨unit_times v hp, times_unit v hp⟩⟩, ?_, ?_⟩
  · intro delta hl hroot hcircle x hx
    obtain ⟨turn, hturn, hone, hplus⟩ := exists_plus_eq_times (σ := σ) hv hl hroot hcircle
    refine ⟨times turn x, length_times turn x, hplus x hx, ?_, fun q hq => ?_⟩
    · rw [squaredNorm_times v hturn hx, hone, one_mul]
    · rw [hplus _ (length_times x q), times_assoc v]
  · intro x hx
    obtain ⟨t, ht, hshape, hentry⟩ := plusJacobian_vector hx
    refine ⟨t, ?_, hshape, fun i hi => ⟨column_orthogonal_point hneg hx hentry hi,
      fun j hj => columns_orthogonal hneg hx hentry hi hj⟩⟩
    unfold Manifold.plusJacobian
    simp only [ht]
    rfl

end Rotation

end Quaternion

/-! ### Real numbers -/

/-- A real number as a scalar. -/
@[ext]
structure Ideal where
  value : ℝ

namespace Ideal

open Classical in
/-- The real numbers have all operations. No fraction and no text stands for a real number. -/
noncomputable instance : Scalar Ideal where
  add x y := ⟨x.value + y.value⟩
  sub x y := ⟨x.value - y.value⟩
  mul x y := ⟨x.value * y.value⟩
  div x y := ⟨x.value / y.value⟩
  neg x := ⟨-x.value⟩
  zero := ⟨0⟩
  one := ⟨1⟩
  nan := ⟨0⟩
  abs x := ⟨|x.value|⟩
  le x y := decide (x.value ≤ y.value)
  isFinite _ := true
  sqrt x := ⟨Real.sqrt x.value⟩
  sin x := ⟨Real.sin x.value⟩
  cos x := ⟨Real.cos x.value⟩
  power x n := if x.value = 0 ∧ n < 0 then .error .zeroDivision else .ok ⟨x.value ^ n⟩
  quantity _ := .nan
  text _ := ""

/-- Real numbers are read as themselves. -/
noncomputable def reading : FieldReading Ideal ℝ where
  value := Ideal.value
  injective _ _ := Ideal.ext
  value_zero := rfl
  value_one := rfl
  value_add _ _ := rfl
  value_sub _ _ := rfl
  value_mul _ _ := rfl
  value_div _ _ := rfl
  value_power x n hx := ⟨⟨x.value ^ n⟩, if_neg fun h => hx h.1, rfl⟩

theorem reading_ordered : reading.Ordered where
  le_iff _ _ := decide_eq_true_iff
  value_abs _ := rfl
  isFinite _ := rfl

/-- The length of a tangent vector is the root of its squared norm. -/
theorem value_norm_sq (delta : List Ideal) :
    reading.value (Quaternion.norm delta) ^ 2 = reading.squaredNorm delta := by
  have hsum : reading.value (Scalar.sum (delta.map fun x => x * x)) =
      reading.squaredNorm delta := by
    rw [reading.value_sum, List.map_map, FieldReading.squaredNorm]
    refine congrArg List.sum (List.map_congr_left fun x _ => ?_)
    rw [Function.comp_apply, reading.value_mul, sq]
  have hnonneg : 0 ≤ reading.squaredNorm delta := by
    refine List.sum_nonneg fun y hy => ?_
    obtain ⟨x, -, rfl⟩ := List.mem_map.1 hy
    exact sq_nonneg _
  rw [← hsum] at hnonneg ⊢
  exact Real.sq_sqrt hnonneg

end Ideal

theorem plus_is_rotation_slanted :
    (∃ moved : List Ideal,
      (Manifold.quaternion : Manifold Unit Ideal).plus (.vector [⟨1⟩, ⟨2⟩, ⟨3⟩, ⟨4⟩])
        (.vector [⟨1⟩, ⟨2⟩, ⟨2⟩]) = pure (.vector moved) ∧
      Ideal.reading.squaredNorm moved = Ideal.reading.squaredNorm [⟨1⟩, ⟨2⟩, ⟨3⟩, ⟨4⟩]) ∧
    ∃ t : Tensor Ideal, (Manifold.quaternion : Manifold Unit Ideal).plusJacobian
        (.vector [⟨1⟩, ⟨2⟩, ⟨3⟩, ⟨4⟩]) = pure (.array t) ∧
      ∑ c ∈ Finset.range 4, Ideal.reading.value (t.get [c, 0]) *
        Ideal.reading.value (t.get [c, 1]) = 0 := by
  obtain ⟨-, hsteps, hcolumns⟩ := Quaternion.plus_is_rotation (σ := Unit) Ideal.reading_ordered
    fun _ => rfl
  obtain ⟨moved, -, hplus, hnorm, -⟩ := hsteps [⟨1⟩, ⟨2⟩, ⟨2⟩] rfl (Ideal.value_norm_sq _)
    (Real.sin_sq_add_cos_sq _) [⟨1⟩, ⟨2⟩, ⟨3⟩, ⟨4⟩] rfl
  obtain ⟨t, ht, -, hentry⟩ := hcolumns [⟨1⟩, ⟨2⟩, ⟨3⟩, ⟨4⟩] rfl
  exact ⟨⟨moved, hplus, hnorm⟩, t, ht, (hentry 0 (by decide)).2 1 (by decide)⟩

end JacobianAudit
