/-
**Zero factors in binary64 arithmetic.**

There are two zeros, which compare as equal, and a product with a zero factor is a zero only if the
other factor is finite: with an infinity, or with what is not a number, it is not a number. So a
zero column of a matrix product hides the sign, the magnitude and all of the digits of what it is
multiplied with, but not whether that is finite. This module follows both through sums of products
and through the error of an entry.

Main definitions:

* `JacobianAudit.Scalar.IsZero` — one of the zeros;
* `JacobianAudit.Binary64.Same` — two numbers that differ in the sign of a zero at most.

Main results:

* `JacobianAudit.Binary64.mul_isZero`, `JacobianAudit.Binary64.mul_isNaN` — products with a zero
  factor;
* `JacobianAudit.Binary64.dot_same`, `JacobianAudit.Binary64.dot_isNaN` — **sums of products**;
* `JacobianAudit.Binary64.relativeError_same`, `JacobianAudit.Binary64.relativeError_isNaN` — **the
  error of an entry**.
-/

import Mathlib.Data.List.Forall2
import JacobianAudit.Comparison.Basic
import JacobianAudit.Proofs.Order
import JacobianAudit.Tensor.Product

set_option autoImplicit false

namespace JacobianAudit

/-- One of the numbers that compare as equal to zero. -/
def Scalar.IsZero {α : Type} [Scalar α] (x : α) : Prop := Scalar.eq x Scalar.zero = true

namespace Binary64

open Float.Model (UnpackedFloat)

variable {x x' y y' z : Float}

/-! ### Kinds of numbers -/

theorem unpack_pack_zero (s : UnpackedFloat.Sign) :
    (Float.Model.pack (.zero s)).unpack = .zero s := by
  cases s <;> rfl

theorem unpack_pack_notANumber : (Float.Model.pack .notANumber).unpack = .notANumber := rfl

/-- The place of zero. -/
theorem place_zero :
    place? (Scalar.zero : Float).toModel.unpack = some (toLex (0, toLex (0, 0))) := by
  decide +kernel

theorem exists_eq_zero_of_place {u : UnpackedFloat}
    (h : place? u = some (toLex (0, toLex (0, 0)))) : ∃ s, u = .zero s := by
  cases u with
  | zero s => exact ⟨s, rfl⟩
  | notANumber => cases h
  | infinity s => cases s <;> dsimp only [place?] at h <;> simp at h
  | finite s m e hm => cases s <;> dsimp only [place?] at h <;> simp at h

theorem exists_place_iff {u : UnpackedFloat} : (∃ p, place? u = some p) ↔ u ≠ .notANumber := by
  constructor
  · rintro ⟨p, hp⟩ rfl
    cases hp
  · intro hu
    cases u with
    | notANumber => exact absurd rfl hu
    | zero s => exact ⟨_, rfl⟩
    | infinity s => cases s <;> exact ⟨_, rfl⟩
    | finite s m e hm => cases s <;> exact ⟨_, rfl⟩

/-- The zeros are the numbers at the place of zero. -/
theorem isZero_iff : Scalar.IsZero x ↔ ∃ s, x.toModel.unpack = .zero s := by
  unfold Scalar.IsZero Scalar.eq
  rw [Bool.and_eq_true, le_iff, le_iff, place_zero]
  constructor
  · rintro ⟨⟨p, hp, q, hq, hpq⟩, q', hq', p', hp', hqp⟩
    obtain rfl := Option.some.inj hq
    obtain rfl := Option.some.inj hq'
    obtain rfl : p = p' := Option.some.inj (hp.symm.trans hp')
    exact exists_eq_zero_of_place (le_antisymm hpq hqp ▸ hp)
  · rintro ⟨s, hs⟩
    rw [hs]
    exact ⟨⟨_, rfl, _, rfl, le_rfl⟩, _, rfl, _, rfl, le_rfl⟩

theorem isZero_zero : Scalar.IsZero (Scalar.zero : Float) := by
  show Scalar.eq (Scalar.zero : Float) Scalar.zero = true
  decide +kernel

theorem isNaN_iff : Scalar.isNaN x = true ↔ x.toModel.unpack = .notANumber := by
  rw [Scalar.isNaN_eq_true_iff, Bool.eq_false_iff, Ne, le_self_iff, exists_place_iff, not_not]

/-! ### Operations -/

section Operations

variable (x y : Float)

theorem add_eq : x + y = .ofModel (.pack (.add .binary64 x.toModel.unpack y.toModel.unpack)) := rfl

theorem sub_eq : x - y = .ofModel (.pack (.sub .binary64 x.toModel.unpack y.toModel.unpack)) := rfl

theorem mul_eq : x * y = .ofModel (.pack (.mul .binary64 x.toModel.unpack y.toModel.unpack)) := rfl

theorem div_eq : x / y = .ofModel (.pack (.div .binary64 x.toModel.unpack y.toModel.unpack)) := rfl

theorem abs_eq : Scalar.abs x = .ofModel (.pack x.toModel.unpack.abs) := rfl

theorem isFinite_eq : Scalar.isFinite x = x.toModel.unpack.isFinite := rfl

end Operations

/-- An operation that answers with a zero. -/
theorem isZero_pack {u : UnpackedFloat} {s : UnpackedFloat.Sign} (h : u = .zero s) :
    Scalar.IsZero (Float.ofModel (.pack u)) :=
  isZero_iff.2 ⟨s, h ▸ unpack_pack_zero s⟩

/-- An operation that answers with what is not a number. -/
theorem isNaN_pack {u : UnpackedFloat} (h : u = .notANumber) :
    Scalar.isNaN (Float.ofModel (.pack u)) = true :=
  isNaN_iff.2 (h ▸ unpack_pack_notANumber)

/-! ### Products with a zero factor -/

/-- A finite number times a zero is a zero. -/
theorem mul_isZero (hx : Scalar.isFinite x = true) (hz : Scalar.IsZero z) :
    Scalar.IsZero (x * z) := by
  obtain ⟨s, hs⟩ := isZero_iff.1 hz
  rw [isFinite_eq] at hx
  rw [mul_eq, hs]
  cases hu : x.toModel.unpack with
  | notANumber => rw [hu] at hx; cases hx
  | infinity t => rw [hu] at hx; cases hx
  | zero t => exact isZero_pack rfl
  | finite t m e hm => exact isZero_pack rfl

/-- What is not finite times a zero is not a number. -/
theorem mul_isNaN (hx : Scalar.isFinite x = false) (hz : Scalar.IsZero z) :
    Scalar.isNaN (x * z) = true := by
  obtain ⟨s, hs⟩ := isZero_iff.1 hz
  rw [isFinite_eq] at hx
  rw [mul_eq, hs]
  cases hu : x.toModel.unpack with
  | notANumber => exact isNaN_pack rfl
  | infinity t => exact isNaN_pack rfl
  | zero t => rw [hu] at hx; cases hx
  | finite t m e hm => rw [hu] at hx; cases hx

/-! ### What is not a number goes through -/

theorem add_isNaN_left (hx : Scalar.isNaN x = true) (y : Float) : Scalar.isNaN (x + y) = true := by
  rw [add_eq, isNaN_iff.1 hx]
  exact isNaN_pack rfl

theorem add_isNaN_right (x : Float) (hy : Scalar.isNaN y = true) :
    Scalar.isNaN (x + y) = true := by
  rw [add_eq, isNaN_iff.1 hy]
  cases x.toModel.unpack <;> exact isNaN_pack rfl

theorem sub_isNaN (hx : Scalar.isNaN x = true) (y : Float) : Scalar.isNaN (x - y) = true := by
  rw [sub_eq, isNaN_iff.1 hx]
  exact isNaN_pack rfl

theorem div_isNaN (hx : Scalar.isNaN x = true) (y : Float) : Scalar.isNaN (x / y) = true := by
  rw [div_eq, isNaN_iff.1 hx]
  exact isNaN_pack rfl

theorem abs_isNaN (hx : Scalar.isNaN x = true) : Scalar.isNaN (Scalar.abs x) = true := by
  rw [abs_eq, isNaN_iff.1 hx]
  exact isNaN_pack rfl

/-- The error of an entry that is not a number is not a number. -/
theorem relativeError_isNaN (hx : Scalar.isNaN x = true) (n : Float) :
    Scalar.isNaN (relativeError x n) = true :=
  div_isNaN (abs_isNaN (sub_isNaN hx n)) _

/-! ### The sign of a zero -/

/-- Two numbers that are the same, or both zeros. -/
def Same (x y : Float) : Prop := x = y ∨ Scalar.IsZero x ∧ Scalar.IsZero y

theorem Same.trans {x y z : Float} (hxy : Same x y) (hyz : Same y z) : Same x z := by
  rcases hxy with rfl | ⟨hx, hy⟩
  · exact hyz
  · rcases hyz with rfl | ⟨-, hz⟩
    · exact .inr ⟨hx, hy⟩
    · exact .inr ⟨hx, hz⟩

/-- The sign of a zero on the right matters for a zero only. -/
theorem add_zeros (x : Float) (hy : Scalar.IsZero y) (hy' : Scalar.IsZero y') :
    Same (x + y) (x + y') := by
  obtain ⟨s, hs⟩ := isZero_iff.1 hy
  obtain ⟨s', hs'⟩ := isZero_iff.1 hy'
  rw [add_eq, add_eq, hs, hs']
  cases x.toModel.unpack with
  | zero t => cases t <;> cases s <;> cases s' <;> exact .inr ⟨isZero_pack rfl, isZero_pack rfl⟩
  | _ => exact .inl rfl

/-- The sign of a zero on the left matters for a zero only. -/
theorem zeros_add (hx : Scalar.IsZero x) (hx' : Scalar.IsZero x') (y : Float) :
    Same (x + y) (x' + y) := by
  obtain ⟨s, hs⟩ := isZero_iff.1 hx
  obtain ⟨s', hs'⟩ := isZero_iff.1 hx'
  rw [add_eq, add_eq, hs, hs']
  cases y.toModel.unpack with
  | zero t => cases t <;> cases s <;> cases s' <;> exact .inr ⟨isZero_pack rfl, isZero_pack rfl⟩
  | _ => exact .inl rfl

theorem Same.add (hx : Same x x') (hy : Same y y') : Same (x + y) (x' + y') := by
  refine Same.trans (y := x' + y) ?_ ?_
  · rcases hx with rfl | ⟨hx, hx'⟩
    · exact .inl rfl
    · exact zeros_add hx hx' y
  · rcases hy with rfl | ⟨hy, hy'⟩
    · exact .inl rfl
    · exact add_zeros x' hy hy'

/-- The sign of a zero makes no difference to an error. -/
theorem relativeError_same (h : Same x x') (n : Float) :
    relativeError x n = relativeError x' n := by
  rcases h with rfl | ⟨hx, hx'⟩
  · rfl
  obtain ⟨s, hs⟩ := isZero_iff.1 hx
  obtain ⟨s', hs'⟩ := isZero_iff.1 hx'
  have habs : Scalar.abs x = Scalar.abs x' := by
    rw [abs_eq, abs_eq, hs, hs']
    rfl
  have hdiff : Scalar.abs (x - n) = Scalar.abs (x' - n) := by
    rw [sub_eq, sub_eq, hs, hs']
    cases n.toModel.unpack with
    | zero t => cases t <;> cases s <;> cases s' <;> rfl
    | _ => rfl
  unfold relativeError
  rw [habs]
  exact congrArg (· / _) hdiff

/-! ### Sums of products -/

/-- Sums of numbers that are the same one by one. -/
theorem foldl_add_same {xs ys : List Float} (h : List.Forall₂ Same xs ys) {start start' : Float}
    (hstart : Same start start') :
    Same (xs.foldl (· + ·) start) (ys.foldl (· + ·) start') := by
  induction h generalizing start start' with
  | nil => exact hstart
  | cons hxy _ ih => exact ih (hstart.add hxy)

/-- A sum that is not a number once stays so. -/
theorem foldl_add_isNaN (xs : List Float) {start : Float} (h : Scalar.isNaN start = true) :
    Scalar.isNaN (xs.foldl (· + ·) start) = true := by
  induction xs generalizing start with
  | nil => exact h
  | cons x xs ih => exact ih (add_isNaN_left h x)

theorem foldl_add_isNaN_of_mem {xs : List Float} (hx : x ∈ xs) (h : Scalar.isNaN x = true)
    (start : Float) : Scalar.isNaN (xs.foldl (· + ·) start) = true := by
  obtain ⟨before, after, rfl⟩ := List.append_of_mem hx
  rw [List.foldl_append, List.foldl_cons]
  exact foldl_add_isNaN after (add_isNaN_right _ h)

/-- Sums of products that are the same one by one. -/
theorem dot_same {n : ℕ} {f f' g : ℕ → Float} (h : ∀ k < n, Same (f k * g k) (f' k * g k)) :
    Same (Tensor.dot n f g) (Tensor.dot n f' g) := by
  unfold Tensor.dot Scalar.sum
  refine foldl_add_same ?_ (.inl rfl)
  rw [List.forall₂_map_left_iff, List.forall₂_map_right_iff, List.forall₂_same]
  exact fun k hk => h k (List.mem_range.1 hk)

/-- **One product that is not a number** is enough. -/
theorem dot_isNaN {n k : ℕ} {f g : ℕ → Float} (hk : k < n)
    (h : Scalar.isNaN (f k * g k) = true) : Scalar.isNaN (Tensor.dot n f g) = true := by
  have hmem : f k * g k ∈ (List.range n).map fun k => f k * g k :=
    List.mem_map_of_mem (List.mem_range.2 hk)
  unfold Tensor.dot Scalar.sum
  exact foldl_add_isNaN_of_mem hmem h Scalar.zero

end Binary64

end JacobianAudit
