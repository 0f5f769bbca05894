/-
**The powers of a number above one.**

The factor by which an error term shrinks is a power of the shrink factor, and an estimate is
divided by what it exceeds one by. The power is enclosed by squaring along the binary digits of the
exponent, with ends that are shortened outward every time, and one of the lower ends is what is
rounded. A lower end must therefore stay clear of one however large the exponent is. The number of
bits grows with the exponent, and so the two ends of an enclosure stay close together; what
shortening takes off the lower end is then too little to undo a multiplication.

Main definitions:

* `JacobianAudit.Binary64.successor` — the number next to one;
* `JacobianAudit.Binary64.Enclosure.Clear` — an enclosure that is narrow and clear of one;
* `JacobianAudit.Binary64.Enclosure.Precise` — bits enough for shortening to take off little.

Main results:

* `JacobianAudit.Binary64.Enclosure.coarsen_bounds` — what shortening takes off;
* `JacobianAudit.Binary64.Enclosure.Clear.digit` — one digit of the exponent keeps an enclosure
  clear;
* `JacobianAudit.Binary64.Enclosure.successor_le_power` — the powers of a number above one are
  enclosed clear of one;
* `JacobianAudit.Binary64.exists_of_toReal` — an exponent is an integer, rounded or not;
* `JacobianAudit.Binary64.one_lt_power` — **the powers of a number above one are above one**.
-/

import JacobianAudit.Proofs.Escapes
import JacobianAudit.Proofs.Roundings

set_option autoImplicit false

namespace JacobianAudit

namespace Binary64

open Float.Model (UnpackedFloat)

variable {m n bits : ℕ} {q : ℤ} {δ ε η : ℚ}

/-! ### The number next to one -/

/-- The number next to one. -/
def successor : ℚ := scaled (2 ^ 52 + 1) (-52)

theorem successor_eq : successor = 1 + 1 / 2 ^ 52 := by
  norm_num [successor, scaled]

theorem one_eq_scaled : (1 : ℚ) = scaled (2 ^ 52) (-52) := by
  norm_num [scaled]

theorem stored_one : Stored (2 ^ 52) (-52) := ⟨by decide, by decide, .inl le_rfl⟩

theorem stored_successor : Stored (2 ^ 52 + 1) (-52) := ⟨by decide, by decide, .inl (by decide)⟩

/-- What is above one is not below its successor. -/
theorem Stored.successor_le {m : ℕ} {e : ℤ} (h : Stored m e) (hlt : 1 < scaled m e) :
    successor ≤ scaled m e := by
  rw [one_eq_scaled, ← not_le, h.le_iff stored_one] at hlt
  rw [successor, stored_successor.le_iff h]
  omega

/-! ### Odd parts -/

namespace Enclosure

/-- The zeros that a numeral ends in can be dropped. -/
theorem two_pow_trailingZeros_dvd (m : ℕ) : 2 ^ trailingZeros m ∣ m := by
  induction m using Nat.strong_induction_on with
  | h m ih =>
      have hhalf : (m ^^^ (m - 1)) / 2 = m / 2 ^^^ (m - 1) / 2 := Nat.xor_div_two
      by_cases hshort : m ^^^ (m - 1) < 2
      · have hzeros : trailingZeros m = 0 := by
          rw [trailingZeros, Nat.log2_def, if_neg (by omega)]
        rw [hzeros, pow_zero]
        exact one_dvd m
      · rcases Nat.even_or_odd' m with ⟨n, rfl | rfl⟩
        · have hn : 0 < n := by
            refine Nat.pos_of_ne_zero ?_
            rintro rfl
            exact hshort (by decide)
          have hpred : (2 * n - 1) / 2 = n - 1 := by omega
          have hzeros : trailingZeros (2 * n) = trailingZeros n + 1 := by
            rw [trailingZeros, Nat.log2_def, if_pos (not_lt.1 hshort), hhalf, hpred,
              Nat.mul_div_cancel_left n two_pos]
            rfl
          rw [hzeros, pow_succ']
          exact Nat.mul_dvd_mul_left 2 (ih n (by omega))
        · have hsame : (2 * n + 1) / 2 = (2 * n + 1 - 1) / 2 := by omega
          rw [hsame, Nat.xor_self] at hhalf
          omega

/-- A number is the scaled odd part of its mantissa. -/
theorem scaled_exact (m : ℕ) (q : ℤ) :
    scaled (exact m q).low (exact m q).exponent = scaled m q := by
  have hlow : (exact m q).low = m / 2 ^ trailingZeros m := Nat.shiftRight_eq_div_pow ..
  rw [hlow, exact, ← scaled_mul_two_pow, Nat.div_mul_cancel (two_pow_trailingZeros_dvd m)]

/-! ### Shortening -/

theorem le_floorBits_mul_add (n k : ℕ) : n ≤ floorBits n k * 2 ^ k + 2 ^ k := by
  have hfloor : floorBits n k = n / 2 ^ k := Nat.shiftRight_eq_div_pow n k
  have hmod := Nat.mod_lt n (Nat.two_pow_pos k)
  have hdiv := Nat.div_add_mod' n (2 ^ k)
  rw [hfloor]
  omega

theorem ceilBits_mul_le_add (n k : ℕ) : ceilBits n k * 2 ^ k ≤ n + 2 ^ k := by
  unfold ceilBits
  split
  · rw [Nat.zero_mul]
    exact Nat.zero_le _
  · have hfloor : Nat.shiftRight (n - 1) k = (n - 1) / 2 ^ k := Nat.shiftRight_eq_div_pow _ k
    have hdiv := Nat.div_mul_le_self (n - 1) (2 ^ k)
    rw [hfloor, Nat.add_mul, Nat.one_mul]
    omega

theorem coarsen_of_excess_eq_zero {e : Enclosure} (h : e.excess bits = 0) :
    e.coarsen bits = e := by
  have hceil : ∀ n, ceilBits n 0 = n := fun n => by
    unfold ceilBits
    split
    · next hzero => exact hzero.symm
    · exact Nat.sub_add_cancel (Nat.one_le_iff_ne_zero.2 ‹_›)
  unfold coarsen
  rw [h, hceil, Nat.cast_zero, add_zero]
  rfl

/-- What shortening takes off is little, since it takes something off a long end only. -/
theorem excess_eq_zero_or {e : Enclosure} {ρ : ℚ} (hle : (e.high : ℚ) ≤ e.low * ρ) (hρ : ρ ≤ 2)
    (hbits : 0 < bits) (hη : 4 ≤ η * 2 ^ bits) :
    e.excess bits = 0 ∨ (2 : ℚ) ^ e.excess bits ≤ e.low * η := by
  refine (Nat.eq_zero_or_pos _).imp_right fun hpos => ?_
  have hlog : e.high.log2 + 1 = e.excess bits + bits := by
    unfold excess at hpos ⊢
    omega
  have hne : e.high ≠ 0 := fun hzero => by
    rw [hzero, show Nat.log2 0 = 0 by decide] at hlog
    omega
  have hlong : 2 ^ (e.excess bits + bits) ≤ e.high * 2 := by
    rw [← hlog, pow_succ]
    exact Nat.mul_le_mul_right 2 (Nat.log2_self_le hne)
  have hlong' : (2 : ℚ) ^ e.excess bits * 2 ^ bits ≤ e.high * 2 := by
    rw [← pow_add]
    exact_mod_cast hlong
  have hlow : (0 : ℚ) ≤ e.low := Nat.cast_nonneg _
  have hpow : (0 : ℚ) < 2 ^ bits := by positivity
  refine le_of_mul_le_mul_right ?_ hpow
  calc (2 : ℚ) ^ e.excess bits * 2 ^ bits ≤ e.low * 4 := by nlinarith
    _ ≤ e.low * (η * 2 ^ bits) := mul_le_mul_of_nonneg_left hη hlow
    _ = e.low * η * 2 ^ bits := by ring

/-- **What shortening takes off**, as a part of the low end. -/
theorem coarsen_bounds {e : Enclosure} {ρ : ℚ} (hle : (e.high : ℚ) ≤ e.low * ρ) (hρ₀ : 0 ≤ ρ)
    (hρ : ρ ≤ 2) (hbits : 0 < bits) (hη : 4 ≤ η * 2 ^ bits) (hη1 : η ≤ 1) :
    scaled e.low e.exponent * (1 - η) ≤ scaled (e.coarsen bits).low (e.coarsen bits).exponent ∧
      ((e.coarsen bits).high : ℚ) * (1 - η) ≤ (e.coarsen bits).low * (ρ + η) := by
  have hpos : 0 < η := by
    have hpow : (0 : ℚ) < 2 ^ bits := by positivity
    by_contra hneg
    nlinarith
  have hlow : (0 : ℚ) ≤ e.low := Nat.cast_nonneg _
  rcases excess_eq_zero_or hle hρ hbits hη with hzero | hunit
  · rw [coarsen_of_excess_eq_zero hzero]
    have hhigh : (0 : ℚ) ≤ e.high := Nat.cast_nonneg _
    have hscaled := scaled_nonneg e.low e.exponent
    constructor <;> nlinarith
  · obtain ⟨unit, hu⟩ : ∃ unit : ℚ, 2 ^ e.excess bits = unit := ⟨_, rfl⟩
    have hupos : 0 < unit := by
      rw [← hu]
      positivity
    -- an end loses, or gains, less than one unit
    have hfloor : (e.low : ℚ) ≤ (e.coarsen bits).low * unit + unit := by
      rw [← hu]
      exact_mod_cast le_floorBits_mul_add e.low (e.excess bits)
    have hceil : ((e.coarsen bits).high : ℚ) * unit ≤ e.high + unit := by
      rw [← hu]
      exact_mod_cast ceilBits_mul_le_add e.high (e.excess bits)
    rw [hu] at hunit
    constructor
    · calc scaled e.low e.exponent * (1 - η) = (e.low * (1 - η)) * 2 ^ e.exponent := by
            rw [scaled]
            ring
        _ ≤ ((e.coarsen bits).low * unit) * 2 ^ e.exponent := by
            refine mul_le_mul_of_nonneg_right ?_ (by positivity)
            linarith
        _ = scaled (e.coarsen bits).low (e.coarsen bits).exponent := by
            rw [← hu, coarsen, ← scaled_mul_two_pow, scaled]
            push_cast
            ring
    · refine le_of_mul_le_mul_right ?_ hupos
      calc ((e.coarsen bits).high : ℚ) * (1 - η) * unit
          = (e.coarsen bits).high * unit * (1 - η) := by ring
        _ ≤ (e.high + unit) * (1 - η) := mul_le_mul_of_nonneg_right hceil (by linarith)
        _ ≤ e.low * (ρ + η) * (1 - η) := by
            refine mul_le_mul_of_nonneg_right ?_ (by linarith)
            linarith
        _ = (e.low * (1 - η)) * (ρ + η) := by ring
        _ ≤ ((e.coarsen bits).low * unit) * (ρ + η) := by
            exact mul_le_mul_of_nonneg_right (by linarith) (by linarith)
        _ = (e.coarsen bits).low * (ρ + η) * unit := by ring

/-! ### Enclosures that stay clear of one -/

/-- The lower end is above one, and the upper end is not far away. -/
structure Clear (δ : ℚ) (e : Enclosure) : Prop where
  ge : successor ≤ scaled e.low e.exponent
  high_le : (e.high : ℚ) ≤ e.low * (1 + δ)

/-- The precision leaves little to be taken off. -/
structure Precise (bits : ℕ) (η : ℚ) : Prop where
  bits_pos : 0 < bits
  le : 4 ≤ η * 2 ^ bits
  small : 1 ≤ successor * (1 - η)

theorem Precise.pos (h : Precise bits η) : 0 < η := by
  have hpow : (0 : ℚ) < 2 ^ bits := by positivity
  have hle := h.le
  by_contra hneg
  nlinarith

theorem Precise.lt (h : Precise bits η) : η < 1 / 2 ^ 52 := by
  have hsmall := h.small
  have hpos := h.pos
  rw [successor_eq] at hsmall
  nlinarith

namespace Clear

variable {a b : Enclosure}

theorem mono (h : Clear δ a) (hle : δ ≤ ε) : Clear ε a where
  ge := h.ge
  high_le := h.high_le.trans
    (mul_le_mul_of_nonneg_left (by linarith) (Nat.cast_nonneg _))

/-- A product of two such enclosures is one. -/
theorem mul (ha : Clear δ a) (hb : Clear ε b) (hprecise : Precise bits η) (hδ : 0 ≤ δ)
    (hε : 0 ≤ ε) (hwide : (1 + δ) * (1 + ε) ≤ 2) {κ : ℚ}
    (hκ : (1 + δ) * (1 + ε) + η ≤ (1 - η) * (1 + κ)) : Clear κ (Enclosure.mul bits a b) := by
  have hη := hprecise.lt
  have hη₀ := hprecise.pos
  have hends : ((a.high * b.high : ℕ) : ℚ) ≤ (a.low * b.low : ℕ) * ((1 + δ) * (1 + ε)) := by
    push_cast
    calc (a.high : ℚ) * b.high ≤ (a.low * (1 + δ)) * (b.low * (1 + ε)) :=
          mul_le_mul ha.high_le hb.high_le (Nat.cast_nonneg _) (by positivity)
      _ = a.low * b.low * ((1 + δ) * (1 + ε)) := by ring
  obtain ⟨hlow, hhigh⟩ := coarsen_bounds
    (e := ⟨a.low * b.low, a.high * b.high, a.exponent + b.exponent⟩) hends (by positivity) hwide
    hprecise.bits_pos hprecise.le (by linarith)
  have hrest : 0 < 1 - η := by linarith
  refine ⟨?_, ?_⟩
  · have hpos : (0 : ℚ) ≤ successor := by
      rw [successor_eq]
      positivity
    calc successor ≤ successor * (successor * (1 - η)) := le_mul_of_one_le_right hpos hprecise.small
      _ = successor * successor * (1 - η) := (mul_assoc ..).symm
      _ ≤ scaled a.low a.exponent * scaled b.low b.exponent * (1 - η) :=
          mul_le_mul_of_nonneg_right (mul_le_mul ha.ge hb.ge hpos (hpos.trans ha.ge)) hrest.le
      _ = scaled (a.low * b.low) (a.exponent + b.exponent) * (1 - η) := by
          rw [scaled_mul_scaled]
      _ ≤ _ := hlow
  · refine le_of_mul_le_mul_right ?_ hrest
    calc ((Enclosure.mul bits a b).high : ℚ) * (1 - η)
        ≤ (Enclosure.mul bits a b).low * ((1 + δ) * (1 + ε) + η) := hhigh
      _ ≤ (Enclosure.mul bits a b).low * ((1 - η) * (1 + κ)) :=
          mul_le_mul_of_nonneg_left hκ (Nat.cast_nonneg _)
      _ = (Enclosure.mul bits a b).low * (1 + κ) * (1 - η) := by ring

/-- **One digit of the exponent**: the ends move apart by a factor of four at most. -/
theorem digit {e : Enclosure} (h : Clear δ a) (he : Clear 0 e) (hprecise : Precise bits η)
    (hδ : 4 * η ≤ δ) (hsmall : δ ≤ 1 / 100) (odd : Bool) :
    Clear (4 * δ) (if odd then Enclosure.mul bits (Enclosure.mul bits a a) e
      else Enclosure.mul bits a a) := by
  have hη₀ := hprecise.pos
  have hη : η ≤ 1 / 400 := by linarith
  have hsquare : Clear (9 / 4 * (δ + η)) (Enclosure.mul bits a a) :=
    h.mul h hprecise (by linarith) (by linarith) (by nlinarith) (by nlinarith)
  cases odd with
  | false => exact hsquare.mono (by linarith)
  | true =>
      have hproduct : Clear (5 / 2 * δ + 5 * η) (Enclosure.mul bits (Enclosure.mul bits a a) e) :=
        hsquare.mul he hprecise (by linarith) le_rfl (by linarith) (by nlinarith)
      exact hproduct.mono (by linarith)

/-- Any number of digits, one after the other. -/
theorem digits {e p : Enclosure} (he : Clear 0 e) (hp : Clear (4 * η) p)
    (hprecise : Precise bits η) (odd : ℕ → Bool) (l : List ℕ)
    (hsmall : 4 ^ l.length * (4 * η) ≤ 1 / 100) :
    Clear (4 ^ l.length * (4 * η)) (l.foldr (fun i p => if odd i
      then Enclosure.mul bits (Enclosure.mul bits p p) e else Enclosure.mul bits p p) p) := by
  have hη := hprecise.pos
  induction l with
  | nil =>
      rw [List.length_nil, pow_zero, one_mul]
      exact hp
  | cons i l ih =>
      have hone : (1 : ℚ) ≤ 4 ^ l.length := one_le_pow₀ (by norm_num)
      rw [List.length_cons, pow_succ'] at hsmall ⊢
      have hrest : 4 ^ l.length * (4 * η) ≤ 1 / 100 := by nlinarith
      rw [mul_assoc]
      exact (ih hrest).digit he hprecise (by nlinarith) hrest (odd i)

end Clear

/-- The leading digit of an exponent makes the number out of one. -/
theorem power_eq_foldr {e : Enclosure} (hn : n ≠ 0) (hbits : 0 < bits) (he : e.excess bits = 0) :
    power bits e n = (List.range n.log2).foldr (fun i p =>
      if n.testBit i then mul bits (mul bits p p) e else mul bits p p) e := by
  have hone : mul bits (exact 1 0) (exact 1 0) = ⟨1, 1, 0⟩ := by
    refine coarsen_of_excess_eq_zero ?_
    show 1 - bits = 0
    omega
  have hlead : mul bits ⟨1, 1, 0⟩ e = e := by
    have hmul : mul bits ⟨1, 1, 0⟩ e = coarsen bits e := by
      simp only [mul, Nat.one_mul, zero_add]
    rw [hmul, coarsen_of_excess_eq_zero he]
  unfold power
  rw [List.range_succ, List.foldr_append, List.foldr_cons, List.foldr_nil, hone]
  dsimp only
  rw [Nat.testBit_log2 hn, if_pos rfl, hlead]

/-- The number of bits that is asked for is enough. -/
theorem precise_of_le (hbits : 96 + 2 * n.log2 ≤ bits) :
    Precise bits (4 / 2 ^ bits) ∧ (4 : ℚ) ^ n.log2 * (4 * (4 / 2 ^ bits)) ≤ 1 / 100 := by
  have hpow : (2 : ℚ) ^ 96 * 4 ^ n.log2 ≤ 2 ^ bits := by
    calc (2 : ℚ) ^ 96 * 4 ^ n.log2 = 2 ^ (96 + 2 * n.log2) := by
          rw [pow_add, pow_mul]
          norm_num
      _ ≤ 2 ^ bits := pow_le_pow_right₀ one_le_two hbits
  have hfour : (1 : ℚ) ≤ 4 ^ n.log2 := one_le_pow₀ (by norm_num)
  have hpos : (0 : ℚ) < 2 ^ bits := by positivity
  refine ⟨⟨by omega, (div_mul_cancel₀ _ hpos.ne').ge, ?_⟩, ?_⟩
  · have hη : (4 : ℚ) / 2 ^ bits ≤ 4 / 2 ^ 96 := by
      refine div_le_div_of_nonneg_left (by norm_num) (by positivity) ?_
      nlinarith
    rw [successor_eq]
    nlinarith
  · rw [show (4 : ℚ) ^ n.log2 * (4 * (4 / 2 ^ bits)) = 16 * 4 ^ n.log2 / 2 ^ bits by ring,
      div_le_iff₀ hpos]
    linarith

/-- **The powers of a number above one are enclosed clear of one.** -/
theorem successor_le_power {m : ℕ} {q : ℤ} (hm : m < 2 ^ 53) (hge : successor ≤ scaled m q)
    (hn : n ≠ 0) (hbits : 96 + 2 * n.log2 ≤ bits) :
    successor ≤ scaled (power bits (exact m q) n).low (power bits (exact m q) n).exponent := by
  obtain ⟨hprecise, hsmall⟩ := precise_of_le hbits
  have hclear : Clear 0 (exact m q) := ⟨by rwa [scaled_exact], by rw [add_zero, mul_one]; rfl⟩
  have hshort : (exact m q).excess bits = 0 := by
    have hhigh : (exact m q).high < 2 ^ 53 := (Nat.shiftRight_le m _).trans_lt hm
    have hlog : (exact m q).high.log2 ≤ 52 := by
      rcases Nat.eq_zero_or_pos (exact m q).high with hzero | hpos
      · rw [hzero]
        decide
      · exact Nat.lt_succ_iff.1 ((Nat.log2_lt hpos.ne').2 hhigh)
    unfold excess
    omega
  have hlength : (List.range n.log2).length = n.log2 := List.length_range
  rw [power_eq_foldr hn hprecise.bits_pos hshort]
  have hη := hprecise.pos
  exact (Clear.digits hclear (hclear.mono (by linarith)) hprecise n.testBit (List.range n.log2)
    (by rwa [hlength])).ge

end Enclosure

/-! ### Exponents -/

/-- An integer is rounded from itself, or from something as large as the integers that need
rounding. -/
theorem exists_nearestBinary_of_nearest (hn : 0 < n) : ∃ m q, 0 < m ∧
    nearest false n 1 = nearestBinary false m q ∧
      (scaled m q = n ∨ scaled (2 ^ 53) 0 ≤ scaled m q) := by
  have hlog : Nat.log2 1 = 0 := by decide
  have htwo : ∀ k, Decimal.twoTo k = 2 ^ k := fun _ => rfl
  unfold nearest
  simp only [hlog, htwo, Nat.add_zero, Nat.one_mul]
  rcases Nat.le_total n.log2 64 with hle | hle
  · -- nothing is left out
    obtain ⟨up, hup⟩ : ∃ up, 64 - n.log2 = up := ⟨_, rfl⟩
    have hdown : n.log2 - 64 = 0 := by omega
    refine ⟨n * 2 ^ (up + 1), -((up + 1 : ℕ) : ℤ), by positivity, ?_, .inl ?_⟩
    · rw [hup, hdown, pow_zero, Nat.div_one, Nat.mod_one, if_pos rfl, Nat.add_zero]
      congr 1
      · rw [pow_succ]
        ring
      · push_cast
        ring
    · rw [scaled_mul_two_pow, neg_add_cancel, scaled, zpow_zero, mul_one]
  · obtain ⟨down, hdown⟩ : ∃ down, n.log2 - 64 = down := ⟨_, rfl⟩
    have hup : 64 - n.log2 = 0 := by omega
    have hlarge : 2 ^ 53 ≤ n / 2 ^ down := by
      rw [Nat.le_div_iff_mul_le (by positivity), ← pow_add]
      exact (Nat.pow_le_pow_right (by decide) (by omega)).trans (Nat.log2_self_le hn.ne')
    rw [hup, hdown, pow_zero, Nat.mul_one]
    refine ⟨_, _, ?_, rfl, .inr ?_⟩
    · omega
    · have hq : ((down : ℕ) : ℤ) - ((0 : ℕ) : ℤ) - 1 = -1 + (down : ℕ) := by
        push_cast
        ring
      rw [hq, ← scaled_mul_two_pow, scaled_of_le (d := -1) (2 ^ 53) (by decide),
        scaled_le_scaled_iff]
      show 2 ^ 53 * 2 ^ 1 ≤ _
      exact (by omega : 2 ^ 53 * 2 ^ 1 ≤ 2 * (n / 2 ^ down) + _).trans
        (Nat.le_mul_of_pos_right _ (Nat.two_pow_pos down))

/-- Small integers are stored. -/
theorem exists_stored_of_lt (hn : 0 < n) (hlt : n < 2 ^ 53) :
    ∃ m e, Stored m e ∧ scaled m e = n := by
  have hlog := (Nat.log2_lt hn.ne').2 hlt
  obtain ⟨k, hk⟩ : ∃ k, n.log2 + k = 52 := ⟨52 - n.log2, by omega⟩
  refine ⟨n * 2 ^ k, -k, ⟨?_, by omega, .inl ?_⟩, ?_⟩
  · calc n * 2 ^ k < 2 ^ (n.log2 + 1) * 2 ^ k :=
          Nat.mul_lt_mul_of_pos_right Nat.lt_log2_self (by positivity)
      _ = 2 ^ 53 := by rw [← pow_add]; congr 1; omega
  · calc 2 ^ 52 = 2 ^ n.log2 * 2 ^ k := by rw [← pow_add, hk]
      _ ≤ n * 2 ^ k := Nat.mul_le_mul_right _ (Nat.log2_self_le hn.ne')
  · rw [scaled_mul_two_pow, neg_add_cancel, scaled, zpow_zero, mul_one]

/-- What is at least one has its leading bit at one or above. -/
theorem le_log2_of_one_le {m : ℕ} {q : ℤ} (h : 1 ≤ scaled m q) : 0 ≤ m.log2 + q := by
  by_contra hneg
  obtain ⟨k, hk⟩ : ∃ k : ℕ, q = -(m.log2 + 1 + k : ℕ) := ⟨(-q - m.log2 - 1).toNat, by omega⟩
  have hone : (1 : ℚ) = scaled (2 ^ (m.log2 + 1 + k)) q := by
    rw [← one_mul (2 ^ (m.log2 + 1 + k)), scaled_mul_two_pow, hk, neg_add_cancel]
    norm_num [scaled]
  rw [hone, scaled_le_scaled_iff, pow_add] at h
  have hlt : m < 2 ^ (m.log2 + 1) := Nat.lt_log2_self
  have hpow : 2 ^ (m.log2 + 1) ≤ 2 ^ (m.log2 + 1) * 2 ^ k :=
    Nat.le_mul_of_pos_right _ (by positivity)
  omega

/-- What an integer is rounded to is an integer. -/
theorem Adjacent.integral {m : ℕ} {e : ℤ} {v : ℚ} (h : Adjacent v m e) (hn : 0 < n)
    (hv : v = n ∨ scaled (2 ^ 53) 0 ≤ v) : 0 ≤ e ∨ scaled m e = n := by
  -- a large number has no bits behind the point
  have hlarge : scaled (2 ^ 53) 0 ≤ v → 0 ≤ e := by
    intro hv
    have htop : Stored (2 ^ 52) 1 := ⟨by decide, by decide, .inl le_rfl⟩
    rw [show scaled (2 ^ 53) 0 = scaled (2 ^ 52) 1 by norm_num [scaled]] at hv
    have hle := htop.exponent_le h.stored (h.ge htop hv)
    omega
  rcases hv with rfl | hv
  · rcases Nat.lt_or_ge n (2 ^ 53) with hlt | hge
    · obtain ⟨a, b, hstored, hvalue⟩ := exists_stored_of_lt hn hlt
      refine .inr (le_antisymm ?_ ?_)
      · exact hvalue ▸ h.le hstored hvalue.ge
      · exact hvalue ▸ h.ge hstored hvalue.le
    · refine .inl (hlarge ?_)
      rw [scaled, zpow_zero, mul_one, Nat.cast_le]
      exact hge
  · exact .inl (hlarge hv)

/-- **An exponent is an integer**: the one that was meant, or the one that it was rounded to. -/
theorem exists_of_toReal (hn : 0 < n) {y : Float} (h : Setting.toReal n = .ok y) :
    ∃ m e hm, y.toModel.unpack = .finite .positive m e hm ∧ (0 ≤ e ∨ scaled m e = n) := by
  obtain ⟨M, q, hM, hnearest, hvalue⟩ := exists_nearestBinary_of_nearest hn
  have hone : scaled (2 ^ 52) (-52) ≤ scaled M q := by
    rw [← one_eq_scaled]
    rcases hvalue with heq | hlarge
    · rw [heq]
      exact_mod_cast hn
    · exact le_trans (by norm_num [scaled]) hlarge
  have hlog := le_log2_of_one_le (one_eq_scaled ▸ hone)
  obtain ⟨m, e, hadjacent, hround⟩ := exists_adjacent_nearestBinary hM (q := q) (by omega)
  have hm : 0 < m := by
    refine Nat.pos_of_ne_zero fun hzero => ?_
    have hge := hadjacent.ge stored_one hone
    rw [hzero, scaled_zero] at hge
    exact (scaled_pos (by decide) _).not_ge hge
  have hnat : nearest ((n : ℤ) < 0) (n : ℤ).natAbs 1 = nearest false n 1 := by
    rw [decide_eq_false (by omega), Int.natAbs_natCast]
  unfold Setting.toReal at h
  simp only [hnat, hnearest, hround] at h
  split at h
  · next hfinite =>
      obtain rfl := Except.ok.inj h
      refine ⟨m, e, hm, ?_, hadjacent.integral hn hvalue⟩
      change (Float.Model.pack (unpacked .positive m e)).unpack.isFinite = true at hfinite
      change (Float.Model.pack (unpacked .positive m e)).unpack = _
      rw [unpacked_of_pos _ hm] at hfinite ⊢
      rcases hadjacent.stored.unpack_pack hm .positive with hunpack | hunpack
      · exact hunpack
      · rw [hunpack] at hfinite
        cases hfinite
  · cases h

/-- The fraction of an integer has a numerator that its denominator divides. -/
theorem exists_binaryFraction_eq {m : ℕ} {e : ℤ} (hm : 0 < m) (h : 0 ≤ e ∨ scaled m e = n) :
    ∃ N k, 0 < N ∧ (Decimal.binaryFraction m e).1 = N * 2 ^ k ∧
      (Decimal.binaryFraction m e).2 = 2 ^ k := by
  rcases le_or_gt 0 e with he | he
  · have hzero : (-e).toNat = 0 := by omega
    refine ⟨m * 2 ^ e.toNat, 0, by positivity, (Nat.mul_one _).symm, ?_⟩
    show 2 ^ (-e).toNat = 2 ^ 0
    rw [hzero]
  · have hvalue := h.resolve_left (not_le.2 he)
    have hzero : e.toNat = 0 := by omega
    have hm' : m = n * 2 ^ (-e).toNat := by
      have hn : (n : ℚ) = scaled (n * 2 ^ (-e).toNat) e := by
        rw [scaled_mul_two_pow, show e + ((-e).toNat : ℤ) = 0 by omega, scaled, zpow_zero, mul_one]
      rw [hn] at hvalue
      exact le_antisymm (scaled_le_scaled_iff.1 hvalue.le) (scaled_le_scaled_iff.1 hvalue.ge)
    refine ⟨n, (-e).toNat, Nat.pos_of_mul_pos_right (hm' ▸ hm), ?_, rfl⟩
    show m * 2 ^ e.toNat = n * 2 ^ (-e).toNat
    rw [hzero, pow_zero, Nat.mul_one, ← hm']

/-- An integer has no halves. -/
theorem exists_ofFraction_eq {m : ℕ} {e : ℤ} (hm : 0 < m) (h : 0 ≤ e ∨ scaled m e = n) :
    ∃ N, 0 < N ∧ Exponent.ofFraction false (Decimal.binaryFraction m e).1
      (Decimal.binaryFraction m e).2 = ⟨false, N, 0⟩ := by
  obtain ⟨N, k, hN, hnum, hden⟩ := exists_binaryFraction_eq hm h
  have hpos : 0 < 2 ^ k := by positivity
  have hgcd : Nat.gcd (N * 2 ^ k) (2 ^ k) = 2 ^ k := Nat.gcd_eq_right (Nat.dvd_mul_left _ _)
  refine ⟨N, hN, ?_⟩
  rw [Exponent.ofFraction, hnum, hden, hgcd, Nat.mul_div_cancel _ hpos, Nat.div_self hpos]
  rfl

/-! ### Powers -/

theorem amount_one : amount (Scalar.one : Float) = 1 := by
  have hunpack : (Scalar.one : Float).toModel.unpack =
    .finite .positive (2 ^ 52) (-52) (by decide) := rfl
  rw [amount, hunpack]
  norm_num [scaled]

theorem magnitude_one : Magnitude (Scalar.one : Float) := ⟨by decide +kernel, by decide +kernel⟩

/-- What is not below the successor of one is rounded to something above one. -/
theorem one_lt_nearestBinary {m : ℕ} {q : ℤ} (h : successor ≤ scaled m q) :
    Scalar.lt Scalar.one (nearestBinary false m q) = true := by
  obtain ⟨y, hy, hvalue⟩ := stored_successor.exists_magnitude (by decide)
  have hlt : Scalar.lt Scalar.one y = true := by
    rw [magnitude_one.lt_iff hy, amount_one, hvalue]
    norm_num [scaled]
  have hone : 1 ≤ scaled m q := le_trans (by rw [successor_eq]; norm_num) h
  have hlog := le_log2_of_one_le hone
  have hm : 0 < m := by
    refine Nat.pos_of_ne_zero fun hzero => ?_
    rw [hzero, scaled_zero] at hone
    norm_num at hone
  obtain ⟨n, d, hadjacent, hround⟩ := exists_adjacent_nearestBinary hm (q := q) (by omega)
  have hle : Scalar.le y (nearestBinary false m q) = true :=
    hround ▸ hadjacent.le_pack hy (hvalue ▸ h)
  exact Scalar.lt_of_lt_of_le hlt hle

/-- A power is a rounded lower end, to bits enough. -/
theorem Exponent.exists_rounded_eq (y : Exponent) (negative : Bool) (m : ℕ) (q : ℤ) :
    ∃ bits, 96 + 2 * y.num.log2 ≤ bits ∧ y.rounded negative m q =
      nearestBinary negative (y.enclose m q bits).low (y.enclose m q bits).exponent := by
  unfold Exponent.rounded
  split
  · next x hx =>
      obtain ⟨bits, hmem, hsettled⟩ := List.exists_of_findSome?_eq_some hx
      have hbits : ∀ bits ∈ y.precisions, 96 + 2 * y.num.log2 ≤ bits := by
        simp [precisions]
      unfold Enclosure.settled? at hsettled
      dsimp only at hsettled
      split at hsettled
      · exact ⟨bits, hbits bits hmem, (Option.some.inj hsettled).symm⟩
      · cases hsettled
  · exact ⟨_, by omega, rfl⟩

/-- A positive integer as an exponent is one without halves. -/
theorem exists_raise_eq (hn : 0 < n) {y : Float} (hy : Setting.toReal n = .ok y) (x : Float) :
    ∃ N, 0 < N ∧ raise x y = raiseFinite x ⟨false, N, 0⟩ := by
  obtain ⟨m, e, hm, hunpack, hinteger⟩ := exists_of_toReal hn hy
  obtain ⟨N, hN, hexponent⟩ := exists_ofFraction_eq hm hinteger
  have hquantity : quantity y = .finite false (Decimal.binaryFraction m e).1
      (Decimal.binaryFraction m e).2 := by
    rw [quantity, hunpack]
    rfl
  have hnum : (Decimal.binaryFraction m e).1 ≠ 0 := (Nat.mul_pos hm (Nat.two_pow_pos _)).ne'
  refine ⟨N, hN, ?_⟩
  rw [raise, hquantity]
  dsimp only
  rw [if_neg hnum, hexponent]

theorem sign_beq : (UnpackedFloat.Sign.positive == .negative) = false := rfl

theorem raiseFinite_infinity {x : Float} (hx : x.toModel.unpack = .infinity .positive) (N : ℕ) :
    raiseFinite x ⟨false, N, 0⟩ = .ok (infinity false) := by
  unfold raiseFinite
  rw [hx]
  simp only [sign_beq, Bool.false_and, Bool.false_eq_true, if_false]

/-- A finite number above one, read as a fraction. -/
theorem magnitude_of_one_lt {r : Float} {m : ℕ} {e : ℤ} {hm : 0 < m}
    (hr : Scalar.lt Scalar.one r = true) (hx : r.toModel.unpack = .finite .positive m e hm) :
    Magnitude r ∧ successor ≤ scaled m e := by
  have hmagnitude : Magnitude r :=
    ⟨OrderedScalar.le_trans magnitude_one.zero_le (Scalar.lt_eq_true_iff.1 hr).1,
      by rw [isFinite_eq, hx]; rfl⟩
  have hone := (magnitude_one.lt_iff hmagnitude).1 hr
  rw [amount_one, amount, hx] at hone
  exact ⟨hmagnitude, (stored_of_unpack hx).successor_le hone⟩

theorem one_lt_of_raiseFinite {x z : Float} {m N : ℕ} {q : ℤ} {hm : 0 < m}
    (hx : x.toModel.unpack = .finite .positive m q hm) (hge : successor ≤ scaled m q) (hN : 0 < N)
    (h : raiseFinite x ⟨false, N, 0⟩ = .ok z) :
    Scalar.lt Scalar.one z = true ∧ Scalar.isFinite z = true := by
  obtain ⟨bits, hbits, hrounded⟩ := Exponent.exists_rounded_eq ⟨false, N, 0⟩ false m q
  have hclear := Enclosure.successor_le_power (stored_of_unpack hx).lt hge hN.ne' hbits
  unfold raiseFinite at h
  rw [hx] at h
  simp only [sign_beq, Bool.false_and, Bool.false_eq_true, if_false] at h
  split at h
  · next hfinite =>
      refine ⟨?_, Except.ok.inj h ▸ hfinite⟩
      rw [← Except.ok.inj h, hrounded]
      exact one_lt_nearestBinary hclear
  · cases h

/-- **The powers of a number above one are above one**, and they are finite if the number is. -/
theorem one_lt_power {r f : Float} (hr : Scalar.lt Scalar.one r = true) (hn : 0 < n)
    (h : Scalar.power r n = .ok f) :
    Scalar.lt Scalar.one f = true ∧ Scalar.isFinite f = Scalar.isFinite r := by
  obtain ⟨y, hy, hraise⟩ := Except.bind_eq_ok_iff.1 h
  obtain ⟨N, hN, heq⟩ := exists_raise_eq hn hy r
  rw [heq] at hraise
  rcases unpack_of_one_lt hr with hx | ⟨m, q, hm, hx⟩
  · rw [raiseFinite_infinity hx] at hraise
    rw [← Except.ok.inj hraise, isFinite_eq r, hx]
    exact ⟨by decide +kernel, by decide +kernel⟩
  · obtain ⟨hmagnitude, hge⟩ := magnitude_of_one_lt hr hx
    obtain ⟨hlt, hfinite⟩ := one_lt_of_raiseFinite hx hge hN hraise
    exact ⟨hlt, hfinite.trans hmagnitude.finite.symm⟩

end Binary64

end JacobianAudit
