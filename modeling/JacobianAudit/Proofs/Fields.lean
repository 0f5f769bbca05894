/-
**Scalars as elements of a field.**

A method is judged apart from its round-off where the scalars are read as the elements of a field,
and every operation as the operation of that field. Nothing else needs to be known of the scalars:
what is proved of such a reading holds in the rational numbers, and over any other field whose
elements can be computed with. An order is asked for separately.

Main definitions:

* `JacobianAudit.FieldReading` — scalars read in a field;
* `JacobianAudit.FieldReading.Ordered` — the reading respects an order of the field;
* `JacobianAudit.FieldReading.Reads` — an array whose entries are read as given numbers.

Main results:

* `JacobianAudit.FieldReading.Reads.unique` — an array is what is read from it;
* `JacobianAudit.FieldReading.value_dot` — the sum of products;
* `JacobianAudit.FieldReading.Ordered.stepSize_pos` — the step is never zero;
* `JacobianAudit.FieldReading.change_eq_zero` — the change from an array to itself is zero.
-/

import Mathlib.Algebra.BigOperators.Intervals
import Mathlib.Algebra.Order.Field.Basic
import JacobianAudit.Difference.Ridders
import JacobianAudit.Proofs.Steps
import JacobianAudit.Tensor.Product

set_option autoImplicit false

namespace JacobianAudit

/-- Scalars are read as elements of a field, and computed with as such. -/
structure FieldReading (α K : Type) [Scalar α] [Field K] where
  value : α → K
  injective : Function.Injective value
  value_zero : value Scalar.zero = 0
  value_one : value Scalar.one = 1
  value_add (x y : α) : value (x + y) = value x + value y
  value_sub (x y : α) : value (x - y) = value x - value y
  value_mul (x y : α) : value (x * y) = value x * value y
  value_div (x y : α) : value (x / y) = value x / value y
  /-- Whatever is not zero has all its powers. -/
  value_power (x : α) (n : ℤ) :
    value x ≠ 0 → ∃ y, Scalar.power x n = .ok y ∧ value y = value x ^ n

namespace FieldReading

variable {α K : Type} [Scalar α] [Field K] (v : FieldReading α K)

/-- The scalars are compared as their readings are, and all of them are finite. -/
structure Ordered [LinearOrder K] : Prop where
  le_iff (x y : α) : Scalar.le x y = true ↔ v.value x ≤ v.value y
  value_abs (x : α) : v.value (Scalar.abs x) = |v.value x|
  isFinite (x : α) : Scalar.isFinite x = true

/-- The array has a shape, and its entries are read as given by their places. -/
def Reads (t : Tensor α) (shape : Shape) (f : ℕ → K) : Prop :=
  t.shape = shape ∧ t.data.map v.value = (List.range shape.size).map f

variable {v} {shape : Shape} {f g : ℕ → K} {s t : Tensor α}

namespace Reads

theorem congr (h : v.Reads t shape f) (hfg : ∀ i, f i = g i) : v.Reads t shape g := by
  obtain rfl : f = g := funext hfg
  exact h

/-- An array is what is read from it. -/
theorem unique (hs : v.Reads s shape f) (ht : v.Reads t shape f) : s = t := by
  obtain ⟨hshape, hdata⟩ := hs
  obtain ⟨hshape', hdata'⟩ := ht
  exact Tensor.ext_data (hshape.trans hshape'.symm)
    (List.map_injective_iff.2 v.injective (hdata.trans hdata'.symm))

/-- An operation on every entry. -/
theorem map (h : v.Reads t shape f) {op : α → α} (op' : K → K)
    (hop : ∀ x, v.value (op x) = op' (v.value x)) :
    v.Reads (t.map op) shape fun i => op' (f i) := by
  refine ⟨h.1, ?_⟩
  have hcomp : v.value ∘ op = op' ∘ v.value := funext hop
  show (t.data.map op).map v.value = _
  rw [List.map_map, hcomp, ← List.map_map, h.2, List.map_map]
  rfl

/-- The difference of two arrays of one shape. -/
theorem sub (hs : v.Reads s shape f) (ht : v.Reads t shape g) :
    ∃ u, s.zipWith (· - ·) t = .ok u ∧ v.Reads u shape fun i => f i - g i := by
  refine ⟨_, Tensor.zipWith_of_shape_eq _ (hs.1.trans ht.1.symm), hs.1, ?_⟩
  show (List.zipWith (· - ·) s.data t.data).map v.value = _
  have hsub : (fun x y : α => v.value (x - y)) = fun x y => v.value x - v.value y :=
    funext₂ v.value_sub
  rw [List.map_zipWith, hsub,
    ← List.zipWith_map (f := fun x y : K => x - y), hs.2, ht.2, List.zipWith_map,
    List.zipWith_self]

end Reads

/-! ### Sums -/

theorem value_sum (xs : List α) : v.value (Scalar.sum xs) = (xs.map v.value).sum := by
  have hfoldl : ∀ (xs : List α) (start : α),
      v.value (xs.foldl (· + ·) start) = v.value start + (xs.map v.value).sum := by
    intro xs
    induction xs with
    | nil => simp
    | cons x xs ih =>
        intro start
        rw [List.foldl_cons, ih, v.value_add, List.map_cons, List.sum_cons, add_assoc]
  rw [Scalar.sum, hfoldl, v.value_zero, zero_add]

/-- The sum of products. -/
theorem value_dot (n : ℕ) (f g : ℕ → α) :
    v.value (Tensor.dot n f g) = ∑ k ∈ Finset.range n, v.value (f k) * v.value (g k) := by
  rw [Tensor.dot, value_sum, List.map_map]
  induction n with
  | zero => rfl
  | succ n ih =>
      rw [List.range_succ, List.map_append, List.sum_append, ih, Finset.sum_range_succ]
      simp [v.value_mul]

/-! ### Changes -/

/-- The largest of some zeros. -/
theorem value_largest_of_zero {xs : List α} (h : ∀ x ∈ xs, v.value x = 0) {start : α}
    (hstart : v.value start = 0) : v.value (Scalar.largest start xs) = 0 := by
  induction xs generalizing start with
  | nil => exact hstart
  | cons x xs ih =>
      refine ih (fun y hy => h y (List.mem_cons_of_mem x hy)) ?_
      unfold Scalar.larger
      split
      · exact hstart
      · exact h x List.mem_cons_self

/-- The change between two arrays of one shape. -/
theorem exists_change (hs : v.Reads s shape f) (ht : v.Reads t shape g) :
    ∃ c, Ridders.change s t = .ok c := by
  obtain ⟨u, hu, -⟩ := hs.sub ht
  exact ⟨_, by rw [Ridders.change, hu]; rfl⟩

section Order

variable [LinearOrder K]

theorem Ordered.lt_iff (h : v.Ordered) (x y : α) :
    Scalar.lt x y = true ↔ v.value x < v.value y := by
  rw [Scalar.lt, Bool.and_eq_true, Bool.not_eq_true', ← Bool.not_eq_true, h.le_iff, h.le_iff,
    not_le]
  exact ⟨fun hlt => hlt.2, fun hlt => ⟨hlt.le, hlt⟩⟩

/-- The step is positive, whatever the magnitude of the coordinate is. -/
theorem Ordered.stepSize_pos (hv : v.Ordered) (o : DiffOptions α) (magnitude : α) :
    0 < v.value (o.stepSize magnitude) := by
  have hlarger : ∀ x y : α, Scalar.lt Scalar.zero y = true →
      0 < v.value (Scalar.orLarger x y) := by
    intro x y hy
    rw [hv.lt_iff, v.value_zero] at hy
    unfold Scalar.orLarger
    split
    · exact hy
    · rename_i hxy
      rw [hv.lt_iff, not_lt] at hxy
      exact hy.trans_le hxy
  unfold DiffOptions.stepSize
  cases o.scheme with
  | ridders => exact hlarger _ _ o.riddersMinStep_pos
  | _ => exact hlarger _ _ o.minStep_pos

/-- The change from an array to itself. -/
theorem change_eq_zero [IsStrictOrderedRing K] (h : v.Ordered) (ht : v.Reads t shape f) {c : α}
    (hc : Ridders.change t t = .ok c) : v.value c = 0 := by
  obtain ⟨u, hu, -, hdata⟩ := ht.sub ht
  rw [Ridders.change, hu] at hc
  cases hc
  refine value_largest_of_zero (fun x hx => ?_) v.value_zero
  obtain ⟨y, hy, rfl⟩ := List.mem_map.1 hx
  have hvalue : v.value y ∈ (List.range shape.size).map fun i => f i - f i := by
    rw [← hdata]
    exact List.mem_map_of_mem hy
  obtain ⟨i, -, hi⟩ := List.mem_map.1 hvalue
  rw [h.value_abs, ← hi, sub_self, abs_zero]

end Order

end FieldReading

end JacobianAudit
