/-
**Rounding once.**

Every operation on binary64 numbers computes an exact result, or as much of it as rounding needs,
and rounds it. Whatever the rounding does with the bits that it drops, it never passes a number that
can be stored: what is not above a stored number is not rounded above it, and what is not below is
not rounded below. It is monotone as well, since a tie goes to the even mantissa on both sides. This
module proves that of the mantissas, their shifts and the bits that stick, with exact fractions on
the other side, and reads it off for quotients, for products and for scaled integers.

Main definitions:

* `JacobianAudit.Binary64.scaled` — the number that a mantissa and an exponent stand for;
* `JacobianAudit.Binary64.Keeps` — what a mantissa and the two bits behind it tell of a number;
* `JacobianAudit.Binary64.Adjacent` — a stored number that no other separates from a number;
* `JacobianAudit.Binary64.Rounds` — the stored number that a number is rounded to;
* `JacobianAudit.Binary64.Magnitude`, `JacobianAudit.Binary64.amount` — a finite number that is not
  below zero, and what it stands for;
* `JacobianAudit.Binary64.IsRounded` — the result of an operation, rounded once.

Main results:

* `JacobianAudit.Binary64.Stored.le_iff` — stored numbers are ordered by exponent and mantissa;
* `JacobianAudit.Binary64.Keeps.rounded_mono` — rounding to an integer is monotone;
* `JacobianAudit.Binary64.Rounds.adjacent`, `JacobianAudit.Binary64.Rounds.mono` — **rounding passes
  no stored number, and is monotone**;
* `JacobianAudit.Binary64.isRounded_div`, `JacobianAudit.Binary64.isRounded_mul` — quotients and
  products are rounded once;
* `JacobianAudit.Binary64.exists_adjacent_nearestBinary` — scaled integers are.
-/

import Mathlib.Algebra.Order.Field.Power
import Mathlib.Algebra.Order.Ring.Rat
import Mathlib.Tactic.FieldSimp
import Mathlib.Tactic.Linarith
import Mathlib.Tactic.Ring
import JacobianAudit.Proofs.Doubling

set_option autoImplicit false

namespace JacobianAudit

namespace Binary64

open Float.Model (Format UnpackedFloat totalExponent)
open Float.Model.UnpackedFloat

variable {m n k : ℕ} {d e : ℤ} {v : ℚ}

/-! ### Scaled integers -/

/-- The number `m × 2 ^ e`. -/
def scaled (m : ℕ) (e : ℤ) : ℚ := m * 2 ^ e

@[simp] theorem scaled_zero (e : ℤ) : scaled 0 e = 0 := by simp [scaled]

theorem scaled_nonneg (m : ℕ) (e : ℤ) : 0 ≤ scaled m e := by
  unfold scaled
  positivity

theorem scaled_pos (hm : 0 < m) (e : ℤ) : 0 < scaled m e := by
  unfold scaled
  positivity

theorem scaled_le_scaled_iff : scaled m e ≤ scaled n e ↔ m ≤ n := by
  have hpos : (0 : ℚ) < 2 ^ e := by positivity
  rw [scaled, scaled, mul_le_mul_iff_left₀ hpos, Nat.cast_le]

theorem scaled_lt_scaled_iff : scaled m e < scaled n e ↔ m < n := by
  rw [← not_le, scaled_le_scaled_iff, not_le]

/-- Zeros behind a mantissa make up for a smaller exponent. -/
theorem scaled_mul_two_pow (m k : ℕ) (e : ℤ) : scaled (m * 2 ^ k) e = scaled m (e + k) := by
  rw [scaled, scaled, zpow_add₀ two_ne_zero, zpow_natCast]
  push_cast
  ring

theorem scaled_of_le (m : ℕ) (h : d ≤ e) : scaled m e = scaled (m * 2 ^ (e - d).toNat) d := by
  rw [scaled_mul_two_pow]
  congr 1
  omega

theorem scaled_mul_scaled (m n : ℕ) (d e : ℤ) :
    scaled m d * scaled n e = scaled (m * n) (d + e) := by
  rw [scaled, scaled, scaled, zpow_add₀ two_ne_zero]
  push_cast
  ring

/-- Of two stored numbers, the one with the larger exponent is larger. -/
theorem Stored.scaled_lt (h : Stored m e) (h' : Stored n d) (hed : e < d) :
    scaled m e < scaled n d := by
  have hge := h.ge
  have hn : 2 ^ 52 ≤ n := h'.normal.resolve_right (by omega)
  rw [scaled_of_le n hed.le, scaled_lt_scaled_iff]
  obtain ⟨k, hk⟩ : ∃ k, (d - e).toNat = k + 1 := ⟨(d - e).toNat - 1, by omega⟩
  calc m < 2 ^ 52 * 2 := h.lt
    _ ≤ n * 2 := Nat.mul_le_mul_right 2 hn
    _ ≤ n * 2 * 2 ^ k := Nat.le_mul_of_pos_right _ (by positivity)
    _ = n * 2 ^ (d - e).toNat := by rw [hk, pow_succ', mul_assoc]

/-- **Stored numbers are ordered by exponent and mantissa.** -/
theorem Stored.le_iff (h : Stored m e) (h' : Stored n d) :
    scaled m e ≤ scaled n d ↔ e < d ∨ e = d ∧ m ≤ n := by
  rcases lt_trichotomy e d with hlt | rfl | hlt
  · simp [hlt, (h.scaled_lt h' hlt).le]
  · simp [scaled_le_scaled_iff]
  · simp [hlt.not_gt, hlt.ne', h'.scaled_lt h hlt]

theorem Stored.exponent_le (h : Stored m e) (h' : Stored n d) (hle : scaled m e ≤ scaled n d) :
    e ≤ d := by
  rcases (h.le_iff h').1 hle with hlt | ⟨heq, -⟩
  · exact hlt.le
  · exact heq.le

/-- The least number with a full mantissa. -/
def leastNormal : ℚ := scaled (2 ^ 52) (-1074)

theorem stored_leastNormal : Stored (2 ^ 52) (-1074) := ⟨by decide, le_rfl, .inl le_rfl⟩

/-! ### What a mantissa leaves open -/

/-- The two bits behind a mantissa keep a number: it has the round bit as its next bit, and it has
something behind that exactly if the other bit is set. -/
structure Keeps (em : ExtendedMantissa) (e : ℤ) (v : ℚ) : Prop where
  eq_base : em.stickyBit = false → v = scaled (2 * em.mantissa + em.roundBit.toNat) (e - 1)
  between : em.stickyBit = true → scaled (2 * em.mantissa + em.roundBit.toNat) (e - 1) < v ∧
    v < scaled (2 * em.mantissa + em.roundBit.toNat + 1) (e - 1)

/-- One half of a unit, as a unit of its own. -/
theorem scaled_eq_scaled_two_mul (m : ℕ) (e : ℤ) : scaled m e = scaled (2 * m) (e - 1) := by
  rw [scaled_of_le m (show e - 1 ≤ e by omega), show (e - (e - 1)).toNat = 1 by omega, pow_one,
    mul_comm]

theorem mantissa_ofMantissaAndAccuracy (m : ℕ) (accuracy : Accuracy) :
    (ExtendedMantissa.ofMantissaAndAccuracy m accuracy).mantissa = m := by
  cases accuracy with
  | exact => rfl
  | inexact o => cases o <;> rfl

namespace Keeps

variable {em em' : ExtendedMantissa}

theorem base_le (h : Keeps em e v) :
    scaled (2 * em.mantissa + em.roundBit.toNat) (e - 1) ≤ v := by
  cases hsticky : em.stickyBit with
  | false => exact (h.eq_base hsticky).ge
  | true => exact (h.between hsticky).1.le

theorem lt_base_succ (h : Keeps em e v) :
    v < scaled (2 * em.mantissa + em.roundBit.toNat + 1) (e - 1) := by
  cases hsticky : em.stickyBit with
  | false => exact (h.eq_base hsticky).trans_lt (scaled_lt_scaled_iff.2 (Nat.lt_succ_self _))
  | true => exact (h.between hsticky).2

theorem le (h : Keeps em e v) : scaled em.mantissa e ≤ v := by
  rw [scaled_eq_scaled_two_mul]
  exact (scaled_le_scaled_iff.2 (Nat.le_add_right _ _)).trans h.base_le

theorem lt_succ (h : Keeps em e v) : v < scaled (em.mantissa + 1) e := by
  rw [scaled_eq_scaled_two_mul]
  refine h.lt_base_succ.trans_le (scaled_le_scaled_iff.2 ?_)
  have := em.roundBit.toNat_le
  omega

/-- What is shifted out sticks. -/
theorem shiftRightOne (h : Keeps em e v) : Keeps em.shiftRightOne (e + 1) v := by
  obtain ⟨m, bit, sticky⟩ := em
  have hbase : 2 * (m / 2) + (m % 2 != 0).toNat = m := by
    rcases Nat.mod_two_eq_zero_or_one m with hm | hm <;> rw [hm]
    · show 2 * (m / 2) + 0 = m
      omega
    · show 2 * (m / 2) + 1 = m
      omega
  have hle := h.le
  have hlt := h.lt_succ
  refine ⟨fun hsticky => ?_, fun hsticky => ?_⟩ <;>
    simp only [ExtendedMantissa.shiftRightOne, add_sub_cancel_right, hbase] at hsticky ⊢
  · obtain ⟨rfl, rfl⟩ := Bool.or_eq_false_iff.1 hsticky
    rw [h.eq_base rfl]
    exact (scaled_eq_scaled_two_mul m e).symm
  · refine ⟨lt_of_le_of_ne hle fun heq => ?_, hlt⟩
    rw [scaled_eq_scaled_two_mul] at heq
    cases sticky with
    | true =>
        have hbelow := (h.between rfl).1
        rw [← heq, scaled_lt_scaled_iff] at hbelow
        exact absurd hbelow (not_lt.2 (Nat.le_add_right _ _))
    | false =>
        obtain rfl : bit = true := by simpa using hsticky
        have hbelow := h.base_le
        rw [← heq, scaled_le_scaled_iff] at hbelow
        exact absurd hbelow (not_le.2 (Nat.lt_succ_self _))

theorem shiftRight (h : Keeps em e v) (k : ℕ) : Keeps (em >>> k) (e + k) v := by
  induction k with
  | zero =>
      rw [Nat.cast_zero, add_zero]
      exact h
  | succ k ih =>
      rw [Nat.cast_succ, ← add_assoc]
      exact ih.shiftRightOne

/-! A number is rounded to an integer nearest to it, and to an even one of two. -/

/-- Below the middle above an integer, a number is not rounded above the integer. -/
theorem rounded_le_of_lt (h : Keeps em e v) (hn : v < scaled (2 * n + 1) (e - 1)) :
    em.roundedMantissa ≤ n := by
  have hbase := scaled_lt_scaled_iff.1 (h.base_le.trans_lt hn)
  obtain ⟨m, bit, sticky⟩ := em
  cases bit <;> cases sticky <;>
    simp only [ExtendedMantissa.roundedMantissa, ExtendedMantissa.accuracy,
      Accuracy.roundToNearestEven, Bool.toNat_true, Bool.toNat_false] at hbase ⊢ <;>
    omega

/-- Above the middle above an integer, a number is rounded above the integer. -/
theorem lt_rounded_of_lt (h : Keeps em e v) (hn : scaled (2 * n + 1) (e - 1) < v) :
    n < em.roundedMantissa := by
  have hbase := scaled_lt_scaled_iff.1 (hn.trans h.lt_base_succ)
  have htie : em.stickyBit = false → 2 * n + 1 < 2 * em.mantissa + em.roundBit.toNat := by
    intro hsticky
    rw [h.eq_base hsticky] at hn
    exact scaled_lt_scaled_iff.1 hn
  obtain ⟨m, bit, sticky⟩ := em
  cases bit <;> cases sticky <;>
    simp only [ExtendedMantissa.roundedMantissa, ExtendedMantissa.accuracy,
      Accuracy.roundToNearestEven, Bool.toNat_true, Bool.toNat_false, forall_const]
      at hbase htie ⊢ <;>
    omega

/-- In the middle, a number is rounded to the even integer. -/
theorem rounded_eq_of_eq (h : Keeps em e v) (hn : v = scaled (2 * n + 1) (e - 1)) :
    em.roundedMantissa = n + n % 2 := by
  have hge := h.base_le
  have hlt := h.lt_base_succ
  rw [hn, scaled_le_scaled_iff] at hge
  rw [hn, scaled_lt_scaled_iff] at hlt
  have hsticky : em.stickyBit = false := by
    rw [← Bool.not_eq_true]
    intro hsticky
    have hbelow := (h.between hsticky).1
    rw [hn, scaled_lt_scaled_iff] at hbelow
    omega
  obtain ⟨m, bit, sticky⟩ := em
  obtain rfl : sticky = false := hsticky
  cases bit <;>
    simp only [ExtendedMantissa.roundedMantissa, ExtendedMantissa.accuracy,
      Accuracy.roundToNearestEven, Bool.toNat_true, Bool.toNat_false] at hge hlt ⊢ <;>
    omega

/-- A number that is not above an integer is not rounded above it. -/
theorem rounded_le (h : Keeps em e v) (hn : v ≤ scaled n e) : em.roundedMantissa ≤ n := by
  rw [scaled_eq_scaled_two_mul] at hn
  exact h.rounded_le_of_lt (hn.trans_lt (scaled_lt_scaled_iff.2 (Nat.lt_succ_self _)))

/-- A number that is not below an integer is not rounded below it. -/
theorem le_rounded (h : Keeps em e v) (hn : scaled n e ≤ v) : n ≤ em.roundedMantissa := by
  cases n with
  | zero => exact Nat.zero_le _
  | succ n =>
      rw [scaled_eq_scaled_two_mul] at hn
      exact h.lt_rounded_of_lt ((scaled_lt_scaled_iff.2 (by omega)).trans_le hn)

/-- **Rounding to an integer is monotone.** -/
theorem rounded_mono {v' : ℚ} (h : Keeps em e v) (h' : Keeps em' e v') (hv : v ≤ v') :
    em.roundedMantissa ≤ em'.roundedMantissa := by
  by_contra hlt
  rw [not_le] at hlt
  -- otherwise both numbers are in the middle above the second integer
  obtain ⟨n, hn⟩ : ∃ n, em'.roundedMantissa = n := ⟨_, rfl⟩
  have hge : scaled (2 * n + 1) (e - 1) ≤ v := not_lt.1 fun hbelow =>
    (h.rounded_le_of_lt hbelow).not_gt (hn ▸ hlt)
  have hle : v' ≤ scaled (2 * n + 1) (e - 1) := not_lt.1 fun habove =>
    (h'.lt_rounded_of_lt habove).ne hn.symm
  have heq := h.rounded_eq_of_eq (le_antisymm (hv.trans hle) hge)
  have heq' := h'.rounded_eq_of_eq (le_antisymm hle (hge.trans hv))
  omega

theorem exact (m : ℕ) (e : ℤ) : Keeps (.ofMantissaAndAccuracy m .exact) e (scaled m e) where
  eq_base _ := scaled_eq_scaled_two_mul m e
  between := nofun

/-- An integer quotient and what its remainder says keep the quotient. -/
theorem quotient (m : ℕ) (hn : 0 < n) (e : ℤ) :
    Keeps (.ofMantissaAndAccuracy (m / n) (accuracyOfFraction (m % n) n)) e (scaled m e / n) := by
  have hpos : (0 : ℚ) < n := Nat.cast_pos.2 hn
  have hmul : ∀ k, scaled k (e - 1) * n = scaled (k * n) (e - 1) := fun k => by
    rw [scaled, scaled]
    push_cast
    ring
  have hlt : ∀ k, scaled k (e - 1) < scaled m e / n ↔ k * n < 2 * m := fun k => by
    rw [lt_div_iff₀ hpos, hmul, scaled_eq_scaled_two_mul m, scaled_lt_scaled_iff]
  have hgt : ∀ k, scaled m e / n < scaled k (e - 1) ↔ 2 * m < k * n := fun k => by
    rw [div_lt_iff₀ hpos, hmul, scaled_eq_scaled_two_mul m, scaled_lt_scaled_iff]
  have heq : ∀ k, 2 * m = k * n → scaled m e / n = scaled k (e - 1) := fun k hk => by
    rw [div_eq_iff hpos.ne', hmul, scaled_eq_scaled_two_mul m, hk]
  have hdiv := Nat.div_add_mod' m n
  have hmod := Nat.mod_lt m hn
  unfold accuracyOfFraction
  split
  · next hzero =>
      refine ⟨fun _ => heq _ ?_, nofun⟩
      show 2 * m = (2 * (m / n) + 0) * n
      rw [Nat.add_zero, mul_assoc]
      omega
  · next hrest =>
      rcases hcompare : compare (2 * (m % n)) n with _ | _ | _
      · have hless := Nat.compare_eq_lt.1 hcompare
        refine ⟨nofun, fun _ => ⟨(hlt _).2 ?_, (hgt _).2 ?_⟩⟩
        · show (2 * (m / n) + 0) * n < 2 * m
          rw [Nat.add_zero, mul_assoc]
          omega
        · show 2 * m < (2 * (m / n) + 0 + 1) * n
          rw [Nat.add_zero, Nat.add_mul, mul_assoc, Nat.one_mul]
          omega
      · have hsame := Nat.compare_eq_eq.1 hcompare
        refine ⟨fun _ => heq _ ?_, nofun⟩
        show 2 * m = (2 * (m / n) + 1) * n
        rw [Nat.add_mul, mul_assoc, Nat.one_mul]
        omega
      · have hmore := Nat.compare_eq_gt.1 hcompare
        refine ⟨nofun, fun _ => ⟨(hlt _).2 ?_, (hgt _).2 ?_⟩⟩
        · show (2 * (m / n) + 1) * n < 2 * m
          rw [Nat.add_mul, mul_assoc, Nat.one_mul]
          omega
        · show 2 * m < (2 * (m / n) + 1 + 1) * n
          rw [Nat.add_assoc, Nat.add_mul, mul_assoc]
          omega

end Keeps

/-! ### Rounding -/

/-- A stored number that no other stored number separates from `v`. -/
structure Adjacent (v : ℚ) (m : ℕ) (e : ℤ) : Prop where
  stored : Stored m e
  le : ∀ {n : ℕ} {d : ℤ}, Stored n d → v ≤ scaled n d → scaled m e ≤ scaled n d
  ge : ∀ {n : ℕ} {d : ℤ}, Stored n d → scaled n d ≤ v → scaled n d ≤ scaled m e

/-- A mantissa and an exponent as an unpacked number. -/
def unpacked (s : UnpackedFloat.Sign) (m : ℕ) (e : ℤ) : UnpackedFloat :=
  if h : m = 0 then .zero s else .finite s m e (Nat.pos_of_ne_zero h)

theorem unpacked_zero (s : UnpackedFloat.Sign) (e : ℤ) : unpacked s 0 e = .zero s := rfl

theorem unpacked_of_pos (s : UnpackedFloat.Sign) (hm : 0 < m) (e : ℤ) :
    unpacked s m e = .finite s m e hm := dif_neg hm.ne'

theorem targetExponent_eq (m : ℕ) (e : ℤ) :
    Format.binary64.targetExponent (totalExponent m e) = max (m.log2 + e - 52) (-1074) := by
  have hbits : Format.binary64.mantissaBits = 53 := rfl
  simp only [totalExponent, Format.targetExponent, hbits, Format.minExponent]
  omega

/-- A short mantissa is not shifted. -/
theorem shiftToTargetExponent_of_lt (hm : m < 2 ^ 53) (he : -1074 ≤ e) :
    shiftToTargetExponent .binary64 m e .exact = (⟨m, false, false⟩, e) := by
  have hlog : m.log2 ≤ 52 := by
    rcases Nat.eq_zero_or_pos m with rfl | hpos
    · decide
    · have := (Nat.log2_lt hpos.ne').2 hm
      omega
  have hzero : (max ((m.log2 : ℤ) + e - 52) (-1074) - e).toNat = 0 := by omega
  simp only [shiftToTargetExponent, shiftToExponent, targetExponent_eq, hzero]
  simp [ExtendedMantissa.ofMantissaAndAccuracy]
  rfl

/-- What rounding answers, by the first shift: only a carry asks for a second one. -/
theorem roundWithAccuracy_eq (s : UnpackedFloat.Sign) {accuracy : Accuracy} {t : ℤ}
    {em : ExtendedMantissa} (h : shiftToTargetExponent .binary64 m e accuracy = (em, t))
    (ht : -1074 ≤ t) (hr : em.roundedMantissa ≤ 2 ^ 53) :
    roundWithAccuracy .binary64 s m e accuracy =
      if em.roundedMantissa < 2 ^ 53 then unpacked s em.roundedMantissa t
      else unpacked s (2 ^ 52) (t + 1) := by
  have hround : roundWithAccuracy .binary64 s m e accuracy =
      unpacked s (shiftToTargetExponent .binary64 em.roundedMantissa t .exact).1.mantissa
        (shiftToTargetExponent .binary64 em.roundedMantissa t .exact).2 := by
    unfold roundWithAccuracy
    rw [h]
    rfl
  by_cases hlt : em.roundedMantissa < 2 ^ 53
  · rw [hround, shiftToTargetExponent_of_lt hlt ht, if_pos hlt]
  · have hcarry : em.roundedMantissa = 2 ^ 52 * 2 ^ 1 := by omega
    have hstored : Stored (2 ^ 52) (t + 1) := ⟨by decide, by omega, .inl le_rfl⟩
    have htarget := hstored.targetExponent_eq (by decide) 1
    rw [Nat.cast_one, add_sub_cancel_right] at htarget
    have hshift : shiftToTargetExponent .binary64 (2 ^ 52 * 2 ^ 1) t .exact =
        (⟨2 ^ 52, false, false⟩, t + 1) := by
      have hone : (t + 1 - t).toNat = 1 := by omega
      simp only [shiftToTargetExponent, shiftToExponent, htarget, hone,
        ExtendedMantissa.ofMantissaAndAccuracy, shiftRight_mul_two_pow, Nat.cast_one]
    rw [hround, if_neg hlt, hcarry, hshift]

/-- A mantissa after the first shift: no bit is too many, and none is missing unless the exponent is
the least one. -/
structure Shifted (v : ℚ) (em : ExtendedMantissa) (t : ℤ) : Prop where
  keeps : Keeps em t v
  ge : -1074 ≤ t
  lt : v < scaled (2 ^ 53) t
  full : -1074 < t → scaled (2 ^ 52) t ≤ v

theorem exists_shifted {accuracy : Accuracy}
    (hv : Keeps (.ofMantissaAndAccuracy m accuracy) e v)
    (he : e ≤ Format.binary64.targetExponent (totalExponent m e)) :
    ∃ em t, shiftToTargetExponent .binary64 m e accuracy = (em, t) ∧ Shifted v em t := by
  obtain ⟨t, ht⟩ : ∃ t, Format.binary64.targetExponent (totalExponent m e) = t := ⟨_, rfl⟩
  obtain ⟨k, hk⟩ : ∃ k, (t - e).toNat = k := ⟨_, rfl⟩
  have htk : e + k = t := by omega
  have hkeeps := hv.shiftRight k
  have hm := mantissa_ofMantissaAndAccuracy m accuracy
  refine ⟨_, t, ?_, htk ▸ hkeeps, ?_, ?_, ?_⟩
  · simp only [shiftToTargetExponent, shiftToExponent, ht, hk, htk]
  · rw [← ht, targetExponent_eq]
    exact le_max_right _ _
  · have hlog : m.log2 + 1 ≤ 53 + k := by
      rw [targetExponent_eq] at ht
      omega
    calc v < scaled (m + 1) e := hm ▸ hv.lt_succ
      _ ≤ scaled (2 ^ (53 + k)) e := scaled_le_scaled_iff.2
          (Nat.lt_log2_self.trans_le (Nat.pow_le_pow_right (by decide) hlog))
      _ = scaled (2 ^ 53) t := by rw [pow_add, scaled_mul_two_pow, htk]
  · intro hlt
    have hlog : m.log2 = 52 + k := by
      rw [targetExponent_eq] at ht
      omega
    have hne : m ≠ 0 := fun hzero => by
      rw [hzero, show Nat.log2 0 = 0 by decide] at hlog
      omega
    calc scaled (2 ^ 52) t = scaled (2 ^ (52 + k)) e := by rw [pow_add, scaled_mul_two_pow, htk]
      _ ≤ scaled m e := scaled_le_scaled_iff.2 (hlog ▸ Nat.log2_self_le hne)
      _ ≤ v := hm ▸ hv.le

namespace Shifted

variable {em : ExtendedMantissa} {t : ℤ}

theorem rounded_le (h : Shifted v em t) : em.roundedMantissa ≤ 2 ^ 53 :=
  h.keeps.rounded_le h.lt.le

/-- Stored numbers with smaller exponents are out of the way. -/
theorem scaled_lt (h : Shifted v em t) (hn : Stored n d) (hd : d < t) :
    scaled n d < scaled (2 ^ 52) t :=
  hn.scaled_lt ⟨by decide, h.ge, .inl le_rfl⟩ hd

theorem le_of_le (h : Shifted v em t) (hn : Stored n d) (hv : v ≤ scaled n d) :
    scaled em.roundedMantissa t ≤ scaled n d := by
  rcases lt_or_ge d t with hd | hd
  · exact absurd (hv.trans_lt (h.scaled_lt hn hd)) (h.full (hn.ge.trans_lt hd)).not_gt
  · rw [scaled_of_le n hd] at hv ⊢
    exact scaled_le_scaled_iff.2 (h.keeps.rounded_le hv)

theorem ge_of_ge (h : Shifted v em t) (hn : Stored n d) (hv : scaled n d ≤ v) :
    scaled n d ≤ scaled em.roundedMantissa t := by
  rcases lt_or_ge d t with hd | hd
  · have hfull := h.keeps.le_rounded (h.full (hn.ge.trans_lt hd))
    exact (h.scaled_lt hn hd).le.trans (scaled_le_scaled_iff.2 hfull)
  · rw [scaled_of_le n hd] at hv ⊢
    exact scaled_le_scaled_iff.2 (h.keeps.le_rounded hv)

theorem normal (h : Shifted v em t) : 2 ^ 52 ≤ em.roundedMantissa ∨ t = -1074 := by
  rcases h.ge.lt_or_eq with hlt | heq
  · exact .inl (h.keeps.le_rounded (h.full hlt))
  · exact .inr heq.symm

/-- Rounding is monotone, whatever the exponents are. -/
theorem mono {v' : ℚ} {em' : ExtendedMantissa} {t' : ℤ} (h : Shifted v em t)
    (h' : Shifted v' em' t') (hv : v ≤ v') :
    scaled em.roundedMantissa t ≤ scaled em'.roundedMantissa t' := by
  have hnext : ∀ {t t' : ℤ}, t < t' → scaled (2 ^ 53) t ≤ scaled (2 ^ 52) t' := by
    intro t t' hlt
    rw [scaled_of_le (2 ^ 52) hlt.le, scaled_le_scaled_iff, pow_succ]
    refine Nat.mul_le_mul_left _ ?_
    calc 2 = 2 ^ 1 := rfl
      _ ≤ 2 ^ (t' - t).toNat := Nat.pow_le_pow_right (by decide) (by omega)
  rcases lt_trichotomy t t' with hlt | rfl | hlt
  · calc scaled em.roundedMantissa t ≤ scaled (2 ^ 53) t := scaled_le_scaled_iff.2 h.rounded_le
      _ ≤ scaled (2 ^ 52) t' := hnext hlt
      _ ≤ scaled em'.roundedMantissa t' :=
          scaled_le_scaled_iff.2 (h'.keeps.le_rounded (h'.full (h.ge.trans_lt hlt)))
  · exact scaled_le_scaled_iff.2 (h.keeps.rounded_mono h'.keeps hv)
  · have hfull := h.full (h'.ge.trans_lt hlt)
    exact absurd (((hnext hlt).trans hfull).trans hv) h'.lt.not_ge

end Shifted

/-- The stored number that `v` is rounded to. -/
structure Rounds (v : ℚ) (m : ℕ) (e : ℤ) : Prop where
  stored : Stored m e
  shifted : ∃ em t, Shifted v em t ∧ scaled em.roundedMantissa t = scaled m e

/-- **Rounding passes no stored number.** -/
theorem Rounds.adjacent (h : Rounds v m e) : Adjacent v m e := by
  obtain ⟨em, t, hshifted, heq⟩ := h.shifted
  exact ⟨h.stored, fun hn hv => heq ▸ hshifted.le_of_le hn hv,
    fun hn hv => heq ▸ hshifted.ge_of_ge hn hv⟩

/-- **Rounding is monotone.** -/
theorem Rounds.mono {v' : ℚ} (h : Rounds v m e) (h' : Rounds v' n d) (hv : v ≤ v') :
    scaled m e ≤ scaled n d := by
  obtain ⟨em, t, hshifted, heq⟩ := h.shifted
  obtain ⟨em', t', hshifted', heq'⟩ := h'.shifted
  rw [← heq, ← heq']
  exact hshifted.mono hshifted' hv

/-- The result of rounding, if the number was given to bits enough. -/
theorem exists_rounds {accuracy : Accuracy}
    (hv : Keeps (.ofMantissaAndAccuracy m accuracy) e v)
    (he : e ≤ Format.binary64.targetExponent (totalExponent m e)) (s : UnpackedFloat.Sign) :
    ∃ n d, Rounds v n d ∧ roundWithAccuracy .binary64 s m e accuracy = unpacked s n d := by
  obtain ⟨em, t, hshift, h⟩ := exists_shifted hv he
  have hround := roundWithAccuracy_eq s hshift h.ge h.rounded_le
  by_cases hlt : em.roundedMantissa < 2 ^ 53
  · rw [if_pos hlt] at hround
    exact ⟨_, _, ⟨⟨hlt, h.ge, h.normal⟩, em, t, h, rfl⟩, hround⟩
  · have hle := h.rounded_le
    have hge := h.ge
    have hcarry : scaled em.roundedMantissa t = scaled (2 ^ 52) (t + 1) := by
      rw [show em.roundedMantissa = 2 ^ 52 * 2 ^ 1 by omega, scaled_mul_two_pow, Nat.cast_one]
    rw [if_neg hlt] at hround
    exact ⟨_, _, ⟨⟨by decide, by omega, .inl le_rfl⟩, em, t, h, hcarry⟩, hround⟩

/-! ### Magnitudes -/

/-- A finite number that is not below zero. -/
structure Magnitude (x : Float) : Prop where
  zero_le : Scalar.le Scalar.zero x = true
  finite : Scalar.isFinite x = true

/-- The number that a magnitude stands for. -/
def amount (x : Float) : ℚ :=
  match x.toModel.unpack with
  | .finite _ m e _ => scaled m e
  | _ => 0

theorem magnitude_zero : Magnitude (Scalar.zero : Float) := ⟨by decide +kernel, by decide +kernel⟩

theorem amount_zero : amount (Scalar.zero : Float) = 0 := rfl

theorem Magnitude.unpack_cases {x : Float} (hx : Magnitude x) :
    (∃ s, x.toModel.unpack = .zero s) ∨
      ∃ m e hm, x.toModel.unpack = .finite .positive m e hm := by
  rcases unpack_of_zero_le hx.zero_le with hs | hfinite | hinfinite
  · exact .inl hs
  · exact .inr hfinite
  · have hfinite := hx.finite
    rw [isFinite_eq, hinfinite] at hfinite
    cases hfinite

/-- A magnitude is zero, or a stored number that is not too large. -/
theorem Magnitude.exists_stored {x : Float} (h : Magnitude x) : ∃ m e, Stored m e ∧ e ≤ 971 ∧
    amount x = scaled m e ∧ place? x.toModel.unpack = place? (unpacked .positive m e) := by
  rcases h.unpack_cases with ⟨s, hs⟩ | ⟨m, e, hm, hx⟩
  · refine ⟨0, -1074, ⟨by decide, le_rfl, .inr rfl⟩, by decide, ?_, ?_⟩
    · rw [amount, hs, scaled_zero]
    · rw [hs]
      rfl
  · obtain ⟨hstored, hle⟩ := bounds_of_unpack hx
    refine ⟨m, e, hstored, hle, ?_, ?_⟩
    · rw [amount, hx]
    · rw [hx, unpacked, dif_neg hm.ne']

/-- Where a mantissa and an exponent stand among the binary64 numbers. -/
theorem place_unpacked (m : ℕ) (e : ℤ) : place? (unpacked .positive m e) =
    some (if m = 0 then toLex (0, toLex (0, 0)) else toLex (1, toLex (e, (m : ℤ)))) := by
  rcases Nat.eq_zero_or_pos m with rfl | hm
  · rfl
  · rw [unpacked_of_pos _ hm, if_neg hm.ne']
    rfl

/-- Stored numbers have the order of what they stand for. -/
theorem Stored.place_le_iff (h : Stored m e) (h' : Stored n d) :
    (∃ p ∈ place? (unpacked .positive m e), ∃ q ∈ place? (unpacked .positive n d), p ≤ q) ↔
      scaled m e ≤ scaled n d := by
  rw [place_unpacked, place_unpacked]
  simp only [Option.mem_some_iff, exists_eq_left']
  rcases Nat.eq_zero_or_pos m with rfl | hm <;> rcases Nat.eq_zero_or_pos n with rfl | hn
  · simp
  · simp [hn.ne', scaled_nonneg, Prod.Lex.le_iff]
  · simp [hm.ne', (scaled_pos hm e).not_ge, Prod.Lex.le_iff]
  · simp [hm.ne', hn.ne', h.le_iff h', Prod.Lex.le_iff]

/-- **Magnitudes have the order of what they stand for.** -/
theorem Magnitude.le_iff {x y : Float} (hx : Magnitude x) (hy : Magnitude y) :
    Scalar.le x y = true ↔ amount x ≤ amount y := by
  obtain ⟨m, e, hm, -, hxm, hxp⟩ := hx.exists_stored
  obtain ⟨n, d, hn, -, hyn, hyp⟩ := hy.exists_stored
  rw [Binary64.le_iff, hxp, hyp, hxm, hyn, hm.place_le_iff hn]

theorem Magnitude.lt_iff {x y : Float} (hx : Magnitude x) (hy : Magnitude y) :
    Scalar.lt x y = true ↔ amount x < amount y := by
  rw [Scalar.lt_eq_true_iff, hx.le_iff hy, ← Bool.not_eq_true, hy.le_iff hx, not_le]
  exact ⟨fun h => h.2, fun h => ⟨h.le, h⟩⟩

/-- A stored number is written and read. -/
theorem unpack_pack_unpacked (h : Stored m e) (he : e ≤ 971) (s : UnpackedFloat.Sign) :
    (Float.Model.pack (unpacked s m e)).unpack = unpacked s m e := by
  rcases Nat.eq_zero_or_pos m with rfl | hm
  · exact unpack_pack_zero s
  · rw [unpacked_of_pos _ hm]
    exact h.unpack_pack_of_le hm s he

/-- Every stored number that is not too large is written as a magnitude. -/
theorem magnitude_pack (h : Stored m e) (he : e ≤ 971) :
    Magnitude (.ofModel (.pack (unpacked .positive m e))) := by
  have hx := unpack_pack_unpacked h he .positive
  have hzero : place? (Scalar.zero : Float).toModel.unpack =
    place? (unpacked .positive 0 (-1074)) := place_zero.trans rfl
  refine ⟨?_, ?_⟩
  · rw [Binary64.le_iff, hzero, hx]
    refine ((⟨by decide, le_rfl, .inr rfl⟩ : Stored 0 (-1074)).place_le_iff h).2 ?_
    rw [scaled_zero]
    exact scaled_nonneg m e
  · rw [isFinite_eq, hx]
    rcases Nat.eq_zero_or_pos m with rfl | hm
    · rfl
    · rw [unpacked_of_pos _ hm]
      rfl

theorem amount_pack (h : Stored m e) (he : e ≤ 971) :
    amount (.ofModel (.pack (unpacked .positive m e))) = scaled m e := by
  rw [amount, unpack_pack_unpacked h he]
  rcases Nat.eq_zero_or_pos m with rfl | hm
  · rw [unpacked_zero, scaled_zero]
  · rw [unpacked_of_pos _ hm]

theorem Stored.exists_magnitude (h : Stored m e) (he : e ≤ 971) :
    ∃ x, Magnitude x ∧ amount x = scaled m e :=
  ⟨_, magnitude_pack h he, amount_pack h he⟩

/-- A number that is too large is written as infinity. -/
theorem Stored.pack_eq_infinity (h : Stored m e) (he : 971 < e) :
    (Float.Model.pack (unpacked .positive m e)).unpack = .infinity .positive := by
  have hm : 0 < m := by
    have hfull := h.normal.resolve_right (by omega)
    omega
  rw [unpacked_of_pos _ hm, unpack_pack_of_large hm _ (by omega)]

/-- A number that is not above a magnitude is not rounded above it. -/
theorem Adjacent.pack_le {y : Float} (h : Adjacent v m e) (hy : Magnitude y) (hle : v ≤ amount y) :
    Scalar.le (Float.ofModel (.pack (unpacked .positive m e))) y = true := by
  obtain ⟨n, d, hn, hd, hyn, hyp⟩ := hy.exists_stored
  have hresult := h.le hn (hyn ▸ hle)
  have he := (h.stored.exponent_le hn hresult).trans hd
  rw [Binary64.le_iff, hyp]
  change ∃ p ∈ place? (Float.Model.pack _).unpack, _
  rwa [unpack_pack_unpacked h.stored he, h.stored.place_le_iff hn]

/-- A number that is not below a magnitude is not rounded below it, be it to infinity. -/
theorem Adjacent.le_pack {y : Float} (h : Adjacent v m e) (hy : Magnitude y) (hle : amount y ≤ v) :
    Scalar.le y (Float.ofModel (.pack (unpacked .positive m e))) = true := by
  obtain ⟨n, d, hn, hd, hyn, hyp⟩ := hy.exists_stored
  have hresult := h.ge hn (hyn ▸ hle)
  rw [Binary64.le_iff, hyp]
  change ∃ p ∈ _, ∃ q ∈ place? (Float.Model.pack _).unpack, _
  rcases le_or_gt e 971 with he | he
  · rwa [unpack_pack_unpacked h.stored he, hn.place_le_iff h.stored]
  · rw [h.stored.pack_eq_infinity he]
    exact ⟨_, place_unpacked n d, _, rfl, place_le_infinity (place_unpacked n d)⟩

theorem Rounds.pack_mono {v' : ℚ} (h : Rounds v m e) (h' : Rounds v' n d) (hv : v ≤ v') :
    Scalar.le (Float.ofModel (.pack (unpacked .positive m e)))
      (Float.ofModel (.pack (unpacked .positive n d))) = true := by
  have hle := h.mono h' hv
  rcases le_or_gt d 971 with hd | hd
  · have he := (h.stored.exponent_le h'.stored hle).trans hd
    rwa [(magnitude_pack h.stored he).le_iff (magnitude_pack h'.stored hd),
      amount_pack h.stored he, amount_pack h'.stored hd]
  · rw [Binary64.le_iff]
    change ∃ p ∈ place? (Float.Model.pack _).unpack, ∃ q ∈ place? (Float.Model.pack _).unpack, p ≤ q
    rw [h'.stored.pack_eq_infinity hd]
    rcases le_or_gt e 971 with he | he
    · rw [unpack_pack_unpacked h.stored he]
      exact ⟨_, place_unpacked m e, _, rfl, place_le_infinity (place_unpacked m e)⟩
    · rw [h.stored.pack_eq_infinity he]
      exact ⟨_, rfl, _, rfl, le_rfl⟩

/-! ### Results of operations -/

/-- A number is the rounded `v`: a zero for zero, and what `v` is rounded to otherwise. -/
def IsRounded (v : ℚ) (z : Float) : Prop :=
  Scalar.IsZero z ∧ v = 0 ∨
    ∃ m e, Rounds v m e ∧ z = .ofModel (.pack (unpacked .positive m e))

namespace IsRounded

variable {v' : ℚ} {y z z' : Float}

theorem le (h : IsRounded v z) (hy : Magnitude y) (hle : v ≤ amount y) :
    Scalar.le z y = true := by
  rcases h with ⟨hzero, -⟩ | ⟨m, e, hrounds, rfl⟩
  · exact OrderedScalar.le_trans (Bool.and_eq_true_iff.1 hzero).1 hy.zero_le
  · exact hrounds.adjacent.pack_le hy hle

theorem ge (h : IsRounded v z) (hy : Magnitude y) (hle : amount y ≤ v) :
    Scalar.le y z = true := by
  rcases h with ⟨hzero, rfl⟩ | ⟨m, e, hrounds, rfl⟩
  · rw [← amount_zero, ← hy.le_iff magnitude_zero] at hle
    exact OrderedScalar.le_trans hle (Bool.and_eq_true_iff.1 hzero).2
  · exact hrounds.adjacent.le_pack hy hle

/-- **Results are in the order of what they are rounded from.** -/
theorem mono (h : IsRounded v z) (h' : IsRounded v' z') (hv : v ≤ v') :
    Scalar.le z z' = true := by
  rcases h with ⟨hzero, rfl⟩ | ⟨m, e, hrounds, rfl⟩
  · exact OrderedScalar.le_trans (Bool.and_eq_true_iff.1 hzero).1 (h'.ge magnitude_zero hv)
  · rcases h' with ⟨hzero, rfl⟩ | ⟨m', e', hrounds', rfl⟩
    · have hbelow : IsRounded v (.ofModel (.pack (unpacked .positive m e))) :=
        .inr ⟨m, e, hrounds, rfl⟩
      exact OrderedScalar.le_trans (hbelow.le magnitude_zero hv) (Bool.and_eq_true_iff.1 hzero).2
    · exact hrounds.pack_mono hrounds' hv

/-- A result that is not above the least number with a full mantissa is a multiple of the least
number there is. -/
theorem exists_keeps (h : IsRounded v z) (hv : v ≤ leastNormal) :
    ∃ em, Keeps em (-1074) v ∧ amount z = scaled em.roundedMantissa (-1074) := by
  rcases h with ⟨hzero, rfl⟩ | ⟨m, e, hrounds, rfl⟩
  · obtain ⟨s, hs⟩ := isZero_iff.1 hzero
    have hkeeps := Keeps.exact 0 (-1074)
    rw [scaled_zero] at hkeeps
    refine ⟨_, hkeeps, ?_⟩
    rw [amount, hs]
    exact (scaled_zero _).symm
  · obtain ⟨em, t, hshifted, heq⟩ := hrounds.shifted
    have he := hrounds.stored.exponent_le stored_leastNormal
      (hrounds.adjacent.le stored_leastNormal hv)
    have ht : t = -1074 := by
      by_contra hne
      have hlt : -1074 < t := lt_of_le_of_ne hshifted.ge (Ne.symm hne)
      have hstored : Stored (2 ^ 52) t := ⟨by decide, hlt.le, .inl le_rfl⟩
      exact (((hshifted.full hlt).trans hv).trans_lt
        (stored_leastNormal.scaled_lt hstored hlt)).false
    subst ht
    exact ⟨em, hshifted.keeps, by rw [amount_pack hrounds.stored (by omega), heq]⟩

end IsRounded

/-! ### Quotients -/

/-- The integer quotient that a quotient is rounded from has bits enough. -/
theorem le_targetExponent_of_div {m₁ m₂ k : ℕ} {e₁ e₂ t : ℤ} (h₁ : 0 < m₁) (h₂ : 0 < m₂)
    (ht : t = min (e₁ - e₂) (max ((m₁.log2 : ℤ) + e₁ - (m₂.log2 + e₂) - 53) (-1074)))
    (hk : (e₁ - e₂ - t).toNat = k) :
    t ≤ Format.binary64.targetExponent (totalExponent (m₁ * 2 ^ k / m₂) t) := by
  rw [targetExponent_eq]
  rcases le_or_gt t (-1074) with hsmall | hlarge
  · exact hsmall.trans (le_max_right _ _)
  · -- the quotient has 53 bits at least
    have hbits : 2 ^ 52 ≤ m₁ * 2 ^ k / m₂ := by
      rw [Nat.le_div_iff_mul_le h₂]
      calc 2 ^ 52 * m₂ ≤ 2 ^ 52 * 2 ^ (m₂.log2 + 1) := Nat.mul_le_mul_left _ Nat.lt_log2_self.le
        _ = 2 ^ (m₂.log2 + 53) := by rw [← pow_add]; congr 1; omega
        _ ≤ 2 ^ (m₁.log2 + k) := Nat.pow_le_pow_right (by decide) (by omega)
        _ = 2 ^ m₁.log2 * 2 ^ k := pow_add ..
        _ ≤ m₁ * 2 ^ k := Nat.mul_le_mul_right _ (Nat.log2_self_le h₁.ne')
    have hlog := (Nat.le_log2 (by omega)).2 hbits
    omega

/-- The quotient of two positive numbers is the rounded exact quotient. -/
theorem exists_rounds_div {m₁ m₂ : ℕ} (h₁ : 0 < m₁) (h₂ : 0 < m₂) (e₁ e₂ : ℤ) :
    ∃ n d, Rounds (scaled m₁ e₁ / scaled m₂ e₂) n d ∧
      UnpackedFloat.div .binary64 (.finite .positive m₁ e₁ h₁) (.finite .positive m₂ e₂ h₂) =
        unpacked .positive n d := by
  obtain ⟨t, ht⟩ : ∃ t, min (e₁ - e₂) (Format.binary64.targetExponent
    (totalExponent m₁ e₁ - totalExponent m₂ e₂)) = t := ⟨_, rfl⟩
  obtain ⟨k, hk⟩ : ∃ k, (e₁ - e₂ - t).toNat = k := ⟨_, rfl⟩
  have hbits : Format.binary64.mantissaBits = 53 := rfl
  have htarget : t = min (e₁ - e₂) (max ((m₁.log2 : ℤ) + e₁ - (m₂.log2 + e₂) - 53) (-1074)) := by
    rw [← ht]
    simp only [totalExponent, Format.targetExponent, hbits, Format.minExponent]
    omega
  have hvalue : scaled m₁ e₁ / scaled m₂ e₂ = scaled (m₁ * 2 ^ k) t / m₂ := by
    have hm₂ : (m₂ : ℚ) ≠ 0 := Nat.cast_ne_zero.2 h₂.ne'
    have hsum : t + k = e₁ - e₂ := by omega
    rw [scaled_mul_two_pow, hsum, scaled, scaled, scaled, zpow_sub₀ two_ne_zero]
    field_simp
  have hdiv : UnpackedFloat.div .binary64 (.finite .positive m₁ e₁ h₁)
      (.finite .positive m₂ e₂ h₂) = roundWithAccuracy .binary64 .positive (m₁ * 2 ^ k / m₂) t
        (accuracyOfFraction (m₁ * 2 ^ k % m₂) m₂) := by
    unfold UnpackedFloat.div
    simp only [divCore, ht, hk, Nat.shiftLeft_eq]
    rfl
  rw [hvalue, hdiv]
  exact exists_rounds (.quotient _ h₂ t) (le_targetExponent_of_div h₁ h₂ htarget hk) .positive

/-- **A quotient is the rounded exact quotient.** -/
theorem isRounded_div {x r : Float} (hx : Magnitude x) (hr : Magnitude r) (hpos : 0 < amount r) :
    IsRounded (amount x / amount r) (x / r) := by
  rcases hr.unpack_cases with ⟨s, hs⟩ | ⟨m₂, e₂, h₂, hr₂⟩
  · rw [amount, hs] at hpos
    exact absurd hpos (lt_irrefl _)
  · rcases hx.unpack_cases with ⟨s, hs⟩ | ⟨m₁, e₁, h₁, hx₁⟩
    · refine .inl ⟨?_, ?_⟩
      · rw [div_eq, hs, hr₂]
        exact isZero_pack rfl
      · rw [amount, hs, zero_div]
    · obtain ⟨n, d, hrounds, hdiv⟩ := exists_rounds_div h₁ h₂ e₁ e₂
      rw [amount, hx₁, amount, hr₂]
      refine .inr ⟨n, d, hrounds, ?_⟩
      rw [div_eq, hx₁, hr₂, hdiv]

/-! ### Products -/

/-- The product of two positive numbers is the rounded exact product. -/
theorem exists_rounds_mul {m₁ m₂ : ℕ} {e₁ e₂ : ℤ} (h₁ : 0 < m₁) (h₂ : 0 < m₂)
    (hs₁ : Stored m₁ e₁) (hs₂ : Stored m₂ e₂) :
    ∃ n d, Rounds (scaled m₁ e₁ * scaled m₂ e₂) n d ∧
      UnpackedFloat.mul .binary64 (.finite .positive m₁ e₁ h₁) (.finite .positive m₂ e₂ h₂) =
        unpacked .positive n d := by
  rw [scaled_mul_scaled]
  refine exists_rounds (.exact _ _) ?_ .positive
  rw [targetExponent_eq]
  -- one of the mantissas is full, or both exponents are the least one
  have hlog : 2 ^ 52 ≤ m₁ * m₂ → 52 ≤ (m₁ * m₂).log2 := (Nat.le_log2 (by positivity)).2
  rcases hs₁.normal with hfull | hleast
  · have := hlog (hfull.trans (Nat.le_mul_of_pos_right _ h₂))
    omega
  · rcases hs₂.normal with hfull | hleast'
    · have := hlog (hfull.trans (Nat.le_mul_of_pos_left _ h₁))
      omega
    · omega

/-- **A product is the rounded exact product.** -/
theorem isRounded_mul {x y : Float} (hx : Magnitude x) (hy : Magnitude y) :
    IsRounded (amount x * amount y) (x * y) := by
  rcases hy.unpack_cases with ⟨s, hs⟩ | ⟨m₂, e₂, h₂, hy₂⟩
  · refine .inl ⟨mul_isZero hx.finite (isZero_iff.2 ⟨s, hs⟩), ?_⟩
    rw [amount.eq_1 y, hs, mul_zero]
  · rcases hx.unpack_cases with ⟨s, hs⟩ | ⟨m₁, e₁, h₁, hx₁⟩
    · refine .inl ⟨?_, ?_⟩
      · rw [mul_eq, hs, hy₂]
        exact isZero_pack rfl
      · rw [amount, hs, zero_mul]
    · obtain ⟨n, d, hrounds, hmul⟩ := exists_rounds_mul h₁ h₂ (stored_of_unpack hx₁)
        (stored_of_unpack hy₂)
      rw [amount, hx₁, amount, hy₂]
      refine .inr ⟨n, d, hrounds, ?_⟩
      rw [mul_eq, hx₁, hy₂, hmul]

/-! ### Scaled integers -/

/-- The first bits of an integer are all of it, or they are many, and within one unit of it. -/
theorem leadingBits_eq_or (m : ℕ) (q : ℤ) :
    scaled (leadingBits m) (q + excessBits m) = scaled m q ∨
      ∃ kept, 2 ^ 60 ≤ kept ∧ kept ≤ leadingBits m ∧ leadingBits m ≤ kept + 1 ∧
        scaled kept (q + excessBits m) < scaled m q ∧
        scaled m q < scaled (kept + 1) (q + excessBits m) := by
  have hshift : Nat.shiftRight m (excessBits m) = m / 2 ^ excessBits m :=
    Nat.shiftRight_eq_div_pow _ _
  have htwo : Decimal.twoTo (excessBits m) = 2 ^ excessBits m := rfl
  unfold leadingBits
  simp only [hshift, htwo]
  split
  · next hexact => exact .inl (by rw [← scaled_mul_two_pow, hexact])
  · next hexact =>
      right
      have hexcess : 60 < m.log2 := by
        by_contra hshort
        have hzero : excessBits m = 0 := Nat.sub_eq_zero_of_le (not_lt.1 hshort)
        rw [hzero] at hexact
        simp at hexact
      have hne : m ≠ 0 := by
        rintro rfl
        simp at hexact
      have hpos : 0 < 2 ^ excessBits m := by positivity
      have hdiv := Nat.div_mul_le_self m (2 ^ excessBits m)
      refine ⟨m / 2 ^ excessBits m, ?_, by omega, by omega, ?_, ?_⟩
      · rw [Nat.le_div_iff_mul_le hpos, ← pow_add]
        refine (Nat.pow_le_pow_right (by decide) ?_).trans (Nat.log2_self_le hne)
        unfold excessBits
        omega
      · rw [← scaled_mul_two_pow, scaled_lt_scaled_iff]
        exact lt_of_le_of_ne hdiv hexact
      · rw [← scaled_mul_two_pow, scaled_lt_scaled_iff]
        exact (Nat.div_lt_iff_lt_mul hpos).1 (Nat.lt_succ_self _)

/-- The first bits of an integer are on the same side of every stored number. -/
theorem leadingBits_sides (m : ℕ) (q : ℤ) (h : Stored n d) :
    (scaled m q ≤ scaled n d → scaled (leadingBits m) (q + excessBits m) ≤ scaled n d) ∧
      (scaled n d ≤ scaled m q → scaled n d ≤ scaled (leadingBits m) (q + excessBits m)) := by
  rcases leadingBits_eq_or m q with heq | ⟨kept, hmany, hle, hge, hlow, hhigh⟩
  · rw [heq]
    exact ⟨id, id⟩
  · obtain ⟨t, ht⟩ : ∃ t, q + excessBits m = t := ⟨_, rfl⟩
    rw [ht] at hlow hhigh ⊢
    rcases lt_or_ge d t with hd | hd
    · -- the unit of the stored number is smaller, and so is the number
      have hsmall : scaled n d < scaled kept t := by
        rw [scaled_of_le kept hd.le, scaled_lt_scaled_iff]
        have hlt := h.lt
        have hpow : 1 ≤ 2 ^ (t - d).toNat := Nat.one_le_two_pow
        nlinarith
      have hbelow := hsmall.trans hlow
      exact ⟨fun hv => absurd hv hbelow.not_ge,
        fun _ => hsmall.le.trans (scaled_le_scaled_iff.2 hle)⟩
    · rw [scaled_of_le n hd]
      refine ⟨fun hv => ?_, fun hv => ?_⟩ <;> rw [scaled_le_scaled_iff]
      · exact hge.trans (scaled_lt_scaled_iff.1 (hlow.trans_le hv))
      · exact (Nat.lt_succ_iff.1 (scaled_lt_scaled_iff.1 (hv.trans_lt hhigh))).trans hle

theorem leadingBits_pos (hm : 0 < m) : 0 < leadingBits m := by
  rcases leadingBits_eq_or m 0 with heq | ⟨kept, hmany, hle, -⟩
  · refine Nat.pos_of_ne_zero fun hzero => ?_
    rw [hzero, scaled_zero] at heq
    exact (scaled_pos hm 0).ne heq
  · omega

/-- A positive scaled integer is rounded once. -/
theorem exists_rounds_round (hm : 0 < m) (s : UnpackedFloat.Sign) (e : ℤ) :
    ∃ n d, Rounds (scaled m e) n d ∧
      UnpackedFloat.round .binary64 s m e = unpacked s n d := by
  obtain ⟨t, ht⟩ : ∃ t, Format.binary64.targetExponent (totalExponent m e) = t := ⟨_, rfl⟩
  obtain ⟨k, hk⟩ : ∃ k, (e - t).toNat = k := ⟨_, rfl⟩
  have hround : UnpackedFloat.round .binary64 s m e =
      roundWithAccuracy .binary64 s (m * 2 ^ k) (e - k) .exact := by
    simp only [UnpackedFloat.round, decreaseExponent, ht, hk, Nat.shiftLeft_eq]
  have hvalue : scaled m e = scaled (m * 2 ^ k) (e - k) := by
    rw [scaled_mul_two_pow, sub_add_cancel]
  have hle : e - k ≤ Format.binary64.targetExponent (totalExponent (m * 2 ^ k) (e - k)) := by
    rw [targetExponent_eq, log2_mul_two_pow hm.ne']
    rw [targetExponent_eq] at ht
    omega
  rw [hround, hvalue]
  exact exists_rounds (.exact _ _) hle s

/-- **A scaled integer is rounded once**, if it is not tiny. -/
theorem exists_adjacent_nearestBinary (hm : 0 < m) {q : ℤ} (hq : -1200 ≤ m.log2 + q) :
    ∃ n d, Adjacent (scaled m q) n d ∧
      nearestBinary false m q = .ofModel (.pack (unpacked .positive n d)) := by
  obtain ⟨n, d, hrounds, hround⟩ :=
    exists_rounds_round (leadingBits_pos hm) .positive (q + excessBits m)
  refine ⟨n, d, ⟨hrounds.stored, fun h hle => ?_, fun h hle => ?_⟩, ?_⟩
  · exact hrounds.adjacent.le h ((leadingBits_sides m q h).1 hle)
  · exact hrounds.adjacent.ge h ((leadingBits_sides m q h).2 hle)
  · rw [nearestBinary, if_neg (by omega), ← hround]
    rfl

/-! ### Predecessors -/

/-- Below a number with a full mantissa there is another one, and it is less by a small part. -/
theorem Stored.exists_pred (h : Stored m e) (hlarge : leastNormal < scaled m e) :
    ∃ n d, Stored n d ∧ d ≤ e ∧ scaled n d < scaled m e ∧
      scaled m e ≤ scaled n d * (1 + 1 / 2 ^ 52) := by
  rw [← not_le, leastNormal, h.le_iff stored_leastNormal] at hlarge
  have hge := h.ge
  have hlt := h.lt
  have hpos : (0 : ℚ) < 2 ^ e := by positivity
  rcases Nat.lt_or_ge (2 ^ 52) m with hm | hm
  · refine ⟨m - 1, e, ⟨by omega, hge, .inl (by omega)⟩, le_rfl,
      scaled_lt_scaled_iff.2 (by omega), ?_⟩
    have hm' : (2 : ℚ) ^ 52 + 1 ≤ m := by exact_mod_cast hm
    rw [scaled, scaled, Nat.cast_pred (by omega)]
    calc (m : ℚ) * 2 ^ e ≤ (m - 1) * (1 + 1 / 2 ^ 52) * 2 ^ e := by
          refine mul_le_mul_of_nonneg_right ?_ hpos.le
          linarith
      _ = (m - 1) * 2 ^ e * (1 + 1 / 2 ^ 52) := by ring
  · -- a power of two: the number before it has the next exponent below
    obtain rfl : m = 2 ^ 52 := le_antisymm hm (h.normal.resolve_right (by omega))
    refine ⟨2 ^ 53 - 1, e - 1, ⟨by decide, by omega, .inl (by decide)⟩, by omega, ?_, ?_⟩
    · rw [scaled_of_le (2 ^ 52) (show e - 1 ≤ e by omega), scaled_lt_scaled_iff,
        show (e - (e - 1)).toNat = 1 by omega]
      decide
    · have hhalf : (2 : ℚ) ^ (e - 1) = 2 ^ e / 2 := by
        rw [zpow_sub₀ two_ne_zero, zpow_one]
      rw [scaled, scaled, hhalf]
      norm_num
      linarith

end Binary64

end JacobianAudit
