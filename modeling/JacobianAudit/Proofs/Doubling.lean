/-
**Doubling binary64 numbers.**

A search that stops at twice the least change takes for granted that twice a change is not less than
the change. In binary64 arithmetic a double is exact, as long as it is not too large: the exponent
goes up by one, or, where it is the least one there is, the mantissa is doubled. This module shows
that on stored mantissas and exponents, and states what is needed of the scalars as a class.

Main definitions:

* `JacobianAudit.MeasuredScalar` — the laws of magnitudes;
* `JacobianAudit.Binary64.Stored` — a mantissa and an exponent as they are stored.

Main results:

* `JacobianAudit.Binary64.Stored.round_eq`, `JacobianAudit.Binary64.Stored.unpack_pack_of_le` — what
  is stored is neither rounded nor changed by being written and read;
* `JacobianAudit.Binary64.unpack_two_mul` — **the double of a positive number**;
* `JacobianAudit.Binary64.le_two_mul` — twice a magnitude is not less.
-/

import Mathlib.Tactic.NormNum
import Mathlib.Tactic.Positivity
import JacobianAudit.Proofs.Zeros

set_option autoImplicit false

namespace JacobianAudit

/-- The laws of magnitudes: what is finite is a number, what is neither finite nor below zero is
above every number, and a magnitude is not above its double. -/
class MeasuredScalar (α : Type) [Scalar α] : Prop extends OrderedScalar α where
  isNaN_of_isFinite : ∀ {x : α}, Scalar.isFinite x = true → Scalar.isNaN x = false
  le_of_infinite : ∀ {x y : α}, Scalar.isNaN x = false → Scalar.le Scalar.zero y = true →
    Scalar.isFinite y = false → Scalar.le x y = true
  le_double : ∀ {x : α}, Scalar.le Scalar.zero x = true → Scalar.isFinite x = true →
    Scalar.le x (Scalar.two * x) = true

namespace Binary64

open Float.Model (Format UnpackedFloat totalExponent)
open Float.Model.UnpackedFloat

/-! ### Stored numbers -/

/-- A mantissa and an exponent as they are stored: with 53 bits, or with the least exponent. -/
structure Stored (m : ℕ) (e : ℤ) : Prop where
  lt : m < 2 ^ 53
  ge : -1074 ≤ e
  normal : 2 ^ 52 ≤ m ∨ e = -1074

variable {m k : ℕ} {e : ℤ}

theorem append_toNat (b : BitVec 52) : (1#1 ++ b).toNat = 2 ^ 52 + b.toNat := by
  rw [BitVec.toNat_append, ← Nat.shiftLeft_add_eq_or_of_lt b.isLt, Nat.shiftLeft_eq]
  rfl

theorem append_toNat_pos (b : BitVec 52) : 0 < (1#1 ++ b).toNat := by
  rw [append_toNat]
  omega

theorem toNat_pos_of_ne {b : BitVec 52} (h : ¬b = 0#52) : 0 < b.toNat :=
  Nat.pos_of_ne_zero fun hzero => h (BitVec.eq_of_toNat_eq hzero)

/-- What is read from bits, in terms of their three parts. -/
theorem unpack_eq_of_parts {bits : BitVec Format.binary64.numBits} {s : UnpackedFloat.Sign}
    {b : BitVec 11} {v : BitVec 52} (hs : Sign.ofBitVec (unpackSign bits) = s)
    (hb : unpackExponent bits = b) (hv : unpackMantissa bits = v) :
    unpack .binary64 bits =
      if b = -1#11 then if v = 0#52 then .infinity s else .notANumber
      else if b = 0#11 then
        if h : v = 0#52 then .zero s
        else .finite s v.toNat (b.toNat - 1075 + 1) (toNat_pos_of_ne h)
      else .finite s (1#1 ++ v).toNat (b.toNat - 1075) (append_toNat_pos v) := by
  subst hs hb hv
  rfl

/-- What is read of a finite number is stored, and its exponent is not too large. -/
theorem bounds_of_unpack {x : Float} {s : UnpackedFloat.Sign} {h : 0 < m}
    (hx : x.toModel.unpack = .finite s m e h) : Stored m e ∧ e ≤ 971 := by
  unfold Float.Model.unpack at hx
  obtain ⟨b, hb⟩ : ∃ b : BitVec 11, @unpackExponent .binary64 x.toModel.toBits.toBitVec = b :=
    ⟨_, rfl⟩
  obtain ⟨v, hv⟩ : ∃ v : BitVec 52, @unpackMantissa .binary64 x.toModel.toBits.toBitVec = v :=
    ⟨_, rfl⟩
  rw [unpack_eq_of_parts rfl hb hv] at hx
  have hlt := v.isLt
  by_cases hones : b = -1#11
  · rw [if_pos hones] at hx
    by_cases hv : v = 0#52
    · rw [if_pos hv] at hx
      cases hx
    · rw [if_neg hv] at hx
      cases hx
  · rw [if_neg hones] at hx
    by_cases hexponent : b = 0#11
    · -- a subnormal number
      rw [if_pos hexponent] at hx
      by_cases hv : v = 0#52
      · rw [dif_pos hv] at hx
        cases hx
      · rw [dif_neg hv] at hx
        injection hx with _ hm he
        rw [hexponent] at he
        obtain rfl : e = -1074 := he.symm
        exact ⟨⟨by omega, le_rfl, .inr rfl⟩, by omega⟩
    · rw [if_neg hexponent] at hx
      injection hx with _ hm he
      rw [append_toNat] at hm
      have hne : b.toNat ≠ 0 := fun hzero => hexponent (BitVec.eq_of_toNat_eq hzero)
      have hlarge : b.toNat ≠ 2047 := fun hlarge => hones (BitVec.eq_of_toNat_eq hlarge)
      exact ⟨⟨by omega, by omega, .inl (by omega)⟩, by omega⟩

theorem stored_of_unpack {x : Float} {s : UnpackedFloat.Sign} {h : 0 < m}
    (hx : x.toModel.unpack = .finite s m e h) : Stored m e :=
  (bounds_of_unpack hx).1

/-! ### Rounding -/

/-- Bits that are zero are dropped without loss. -/
theorem shiftRight_mul_two_pow (m k : ℕ) :
    (⟨m * 2 ^ k, false, false⟩ : ExtendedMantissa) >>> k = ⟨m, false, false⟩ := by
  induction k generalizing m with
  | zero => simp; rfl
  | succ k ih =>
      show ExtendedMantissa.shiftRightOne
        ((⟨m * 2 ^ (k + 1), false, false⟩ : ExtendedMantissa) >>> k) = _
      rw [pow_succ', ← mul_assoc, ih]
      simp [ExtendedMantissa.shiftRightOne]

theorem log2_mul_two_pow (hm : m ≠ 0) (k : ℕ) : (m * 2 ^ k).log2 = m.log2 + k := by
  induction k with
  | zero => simp
  | succ k ih =>
      rw [pow_succ', mul_left_comm, Nat.log2_two_mul (by positivity), ih, add_assoc]

/-- The exponent that a stored number has. -/
theorem Stored.targetExponent_eq (h : Stored m e) (hm : 0 < m) (k : ℕ) :
    Format.binary64.targetExponent (totalExponent (m * 2 ^ k) (e - k)) = e := by
  have hlog := (Nat.log2_lt hm.ne').2 h.lt
  have hfull : 2 ^ 52 ≤ m → 52 ≤ m.log2 := (Nat.le_log2 hm.ne').2
  have hge := h.ge
  have hbits : Format.binary64.mantissaBits = 53 := rfl
  simp only [totalExponent, log2_mul_two_pow hm.ne', Format.targetExponent, hbits,
    Format.minExponent]
  rcases h.normal with hn | rfl
  · have := hfull hn
    omega
  · omega

/-- **A stored number is not rounded**, with whatever zeros behind it. -/
theorem Stored.round_eq (h : Stored m e) (hm : 0 < m) (s : UnpackedFloat.Sign) (k : ℕ) :
    roundWithAccuracy .binary64 s (m * 2 ^ k) (e - k) .exact = .finite s m e hm := by
  have hshift : ∀ k : ℕ, shiftToTargetExponent .binary64 (m * 2 ^ k) (e - k) .exact =
      (⟨m, false, false⟩, e) := by
    intro k
    have hk : (e - (e - k)).toNat = k := by omega
    simp only [shiftToTargetExponent, shiftToExponent, h.targetExponent_eq hm, hk,
      ExtendedMantissa.ofMantissaAndAccuracy, shiftRight_mul_two_pow, sub_add_cancel]
  have hagain : shiftToTargetExponent .binary64 m e .exact = (⟨m, false, false⟩, e) := by
    simpa using hshift 0
  -- there is nothing behind the mantissa, so nothing is carried
  have hrounded : (⟨m, false, false⟩ : ExtendedMantissa).roundedMantissa = m := rfl
  unfold roundWithAccuracy
  rw [hshift k]
  dsimp only
  rw [hrounded, hagain]
  exact dif_neg hm.ne'

/-! ### Writing and reading -/

/-- The sign is read back. -/
theorem ofBitVec_unpackSign (s : UnpackedFloat.Sign) (b : BitVec 11) (v : BitVec 52) :
    Sign.ofBitVec (unpackSign (packComponents .binary64 s b v)) = s := by
  unfold unpackSign packComponents BitVec.extractLsb
  rw [BitVec.extractLsb'_append_eq_of_le (by decide),
    BitVec.extractLsb'_append_eq_of_le (by decide)]
  cases s <;> rfl

/-- The number that is packed from an exponent and the bits behind the leading one. -/
theorem unpack_packComponents_normal (s : UnpackedFloat.Sign) {b : ℕ} (hb : 0 < b)
    (hb' : b < 2047) (v : BitVec 52) :
    unpack .binary64 (packComponents .binary64 s (BitVec.ofNat 11 b) v) =
      .finite s (2 ^ 52 + v.toNat) (b - 1075) (by omega) := by
  have hexponent : (BitVec.ofNat 11 b).toNat = b := by
    rw [BitVec.toNat_ofNat]
    omega
  have hones : BitVec.ofNat 11 b ≠ -1#11 := fun h => by
    have := congrArg BitVec.toNat h
    rw [hexponent] at this
    exact absurd this hb'.ne
  have hzero : BitVec.ofNat 11 b ≠ 0#11 := fun h => by
    have := congrArg BitVec.toNat h
    rw [hexponent] at this
    exact absurd this hb.ne'
  rw [unpack_eq_of_parts (ofBitVec_unpackSign s _ v) unpackExponent_packComponents
    unpackMantissa_packComponents, if_neg hones, if_neg hzero, UnpackedFloat.finite.injEq,
    hexponent, append_toNat]
  exact ⟨rfl, rfl, rfl⟩

/-- The number that is packed from bits without a leading one. -/
theorem unpack_packComponents_subnormal (s : UnpackedFloat.Sign) {v : BitVec 52}
    (hv : 0 < v.toNat) : unpack .binary64 (packComponents .binary64 s 0#11 v) =
      .finite s v.toNat (-1074) hv := by
  have hne : v ≠ 0#52 := fun h => by
    rw [h] at hv
    exact absurd hv (by decide)
  rw [unpack_eq_of_parts (ofBitVec_unpackSign s _ v) unpackExponent_packComponents
    unpackMantissa_packComponents, if_neg (by decide), if_pos rfl, dif_neg hne]
  rfl

/-- What is packed of a number: infinity, or its parts with or without the leading bit. -/
theorem unpack_pack_eq (hm : 0 < m) (s : UnpackedFloat.Sign) :
    (Float.Model.pack (.finite s m e hm)).unpack = unpack .binary64
      (if 2 ^ 11 ≤ (e + (1023 : ℕ) + (52 : ℕ)).toNat + 1 then packedInfinity .binary64 s
      else if m.log2 + 1 = 53 then
        packComponents .binary64 s (BitVec.ofNat 11 (e + (1023 : ℕ) + (52 : ℕ)).toNat)
          (BitVec.ofNat 52 m)
      else packComponents .binary64 s 0#11 (BitVec.ofNat 52 m)) := rfl

/-- A number whose exponent is too large is written as infinity. -/
theorem unpack_pack_of_large (hm : 0 < m) (s : UnpackedFloat.Sign) (he : 972 ≤ e) :
    (Float.Model.pack (.finite s m e hm)).unpack = .infinity s := by
  rw [unpack_pack_eq, if_pos (by omega)]
  unfold packedInfinity
  rw [unpack_eq_of_parts (ofBitVec_unpackSign s _ _) unpackExponent_packComponents
    unpackMantissa_packComponents, if_pos rfl]
  exact if_pos rfl

/-- **A stored number is read back**, unless its exponent is too large. -/
theorem Stored.unpack_pack_of_le (h : Stored m e) (hm : 0 < m) (s : UnpackedFloat.Sign)
    (he : e ≤ 971) : (Float.Model.pack (.finite s m e hm)).unpack = .finite s m e hm := by
  have hge := h.ge
  have hlt := h.lt
  rw [unpack_pack_eq, if_neg (by omega)]
  by_cases hfull : m.log2 + 1 = 53
  · -- the leading bit is there
    have hlow : 2 ^ 52 ≤ m := (Nat.le_log2 hm.ne').1 (by omega)
    rw [if_pos hfull, unpack_packComponents_normal s (by omega) (by omega),
      UnpackedFloat.finite.injEq]
    have hmantissa : 2 ^ 52 + (BitVec.ofNat 52 m).toNat = m := by
      rw [BitVec.toNat_ofNat]
      omega
    have hexponent : ((e + (1023 : ℕ) + (52 : ℕ)).toNat : ℤ) - 1075 = e := by omega
    exact ⟨rfl, hmantissa, hexponent⟩
  · have hlog := (Nat.log2_lt hm.ne').2 hlt
    have hlow : m < 2 ^ 52 := (Nat.log2_lt hm.ne').1 (by omega)
    have hmantissa : (BitVec.ofNat 52 m).toNat = m := by
      rw [BitVec.toNat_ofNat]
      omega
    obtain rfl : e = -1074 := h.normal.resolve_left (by omega)
    rw [if_neg hfull, unpack_packComponents_subnormal s (hmantissa.symm ▸ hm),
      UnpackedFloat.finite.injEq]
    exact ⟨rfl, hmantissa, rfl⟩

theorem Stored.unpack_pack (h : Stored m e) (hm : 0 < m) (s : UnpackedFloat.Sign) :
    (Float.Model.pack (.finite s m e hm)).unpack = .finite s m e hm ∨
      (Float.Model.pack (.finite s m e hm)).unpack = .infinity s := by
  rcases le_or_gt e 971 with he | he
  · exact .inl (h.unpack_pack_of_le hm s he)
  · exact .inr (unpack_pack_of_large hm s he)

/-! ### Doubling -/

theorem unpack_two : (Scalar.two : Float).toModel.unpack =
    .finite .positive (2 ^ 52) (-51) (by decide) := rfl

/-- The double of a positive number: it stays as exact as it was, or is too large. -/
theorem unpack_two_mul {x : Float} {h : 0 < m} (hx : x.toModel.unpack = .finite .positive m e h) :
    ∃ m' e', ∃ h' : 0 < m', (e < e' ∨ e = e' ∧ m ≤ m') ∧
      ((Scalar.two * x).toModel.unpack = .finite .positive m' e' h' ∨
        (Scalar.two * x).toModel.unpack = .infinity .positive) := by
  have hs := stored_of_unpack hx
  have hge := hs.ge
  have hlt := hs.lt
  -- a full mantissa has its exponent raised, another one is doubled
  obtain ⟨m', e', k, hstored, hle, hmul, hadd⟩ : ∃ m' e', ∃ k : ℕ, Stored m' e' ∧
      (e < e' ∨ e = e' ∧ m ≤ m') ∧ 2 ^ 52 * m = m' * 2 ^ k ∧ -51 + e = e' - k := by
    rcases Nat.lt_or_ge m (2 ^ 52) with hlow | hfull
    · obtain rfl : e = -1074 := hs.normal.resolve_left (by omega)
      exact ⟨2 * m, -1074, 51, ⟨by omega, le_rfl, .inr rfl⟩, .inr ⟨rfl, by omega⟩, by omega,
        by omega⟩
    · exact ⟨m, e + 1, 52, ⟨hlt, by omega, .inl hfull⟩, .inl (by omega), by omega, by omega⟩
  have hpos : 0 < m' := by
    refine Nat.pos_of_ne_zero fun hzero => ?_
    rw [hzero] at hmul
    omega
  refine ⟨m', e', hpos, hle, ?_⟩
  have hround : Scalar.two * x = .ofModel (.pack (.finite .positive m' e' hpos)) := by
    rw [mul_eq, unpack_two, hx]
    show Float.ofModel (.pack (roundWithAccuracy .binary64 .positive (2 ^ 52 * m) (-51 + e)
      .exact)) = _
    rw [hmul, hadd, hstored.round_eq hpos]
  rw [hround]
  exact hstored.unpack_pack hpos .positive

/-! ### Magnitudes -/

/-- No place is above that of infinity. -/
theorem place_le_infinity {u : UnpackedFloat} {p : Place} (h : place? u = some p) :
    p ≤ toLex (2, toLex (0, 0)) := by
  rcases u with (_ | _) | _ | _ | ⟨_ | _, m, e, _⟩ <;> dsimp only [place?] at h <;> cases h <;>
    simp [Prod.Lex.le_iff]

/-- A magnitude is a zero, a positive number or infinity. -/
theorem unpack_of_zero_le {x : Float} (h : Scalar.le Scalar.zero x = true) :
    (∃ s, x.toModel.unpack = .zero s) ∨
      (∃ m e hm, x.toModel.unpack = .finite .positive m e hm) ∨
      x.toModel.unpack = .infinity .positive := by
  obtain ⟨p, hp, q, hq, hpq⟩ := (le_iff _ _).1 h
  rw [place_zero] at hp
  obtain rfl := Option.some.inj hp
  rcases hx : x.toModel.unpack with (_ | _) | _ | s | ⟨_ | _, m, e, hm⟩ <;> rw [hx] at hq <;>
    dsimp only [place?] at hq <;> cases hq
  · simp [Prod.Lex.le_iff] at hpq
  · exact .inr (.inr rfl)
  · exact .inl ⟨s, rfl⟩
  · simp [Prod.Lex.le_iff] at hpq
  · exact .inr (.inl ⟨m, e, hm, rfl⟩)

/-- **Twice a magnitude is not less** than the magnitude. -/
theorem le_two_mul {x : Float} (h : Scalar.le Scalar.zero x = true) :
    Scalar.le x (Scalar.two * x) = true := by
  rw [le_iff]
  rcases unpack_of_zero_le h with ⟨s, hs⟩ | ⟨m, e, hm, hx⟩ | hx
  · have hdouble := mul_isZero (x := Scalar.two) (by decide +kernel) (isZero_iff.2 ⟨s, hs⟩)
    obtain ⟨t, ht⟩ := isZero_iff.1 hdouble
    rw [hs, ht]
    exact ⟨_, rfl, _, rfl, le_rfl⟩
  · obtain ⟨m', e', h', hle, hdouble | hdouble⟩ := unpack_two_mul hx
    · rw [hx, hdouble]
      refine ⟨_, rfl, _, rfl, ?_⟩
      simpa [Prod.Lex.le_iff] using hle
    · rw [hdouble]
      exact ⟨_, congrArg place? hx, _, rfl, place_le_infinity (congrArg place? hx)⟩
  · rw [mul_eq, unpack_two, hx]
    exact ⟨_, rfl, _, rfl, le_rfl⟩

end Binary64

instance : MeasuredScalar Float where
  isNaN_of_isFinite {x} h := by
    rw [Binary64.isFinite_eq] at h
    rw [← Bool.not_eq_true, Binary64.isNaN_iff]
    intro hx
    rw [hx] at h
    cases h
  le_of_infinite {x y} hx hy h := by
    rw [Binary64.isFinite_eq] at h
    have hinfinite : y.toModel.unpack = .infinity .positive := by
      rcases Binary64.unpack_of_zero_le hy with ⟨s, hs⟩ | ⟨m, e, hm, hs⟩ | hs
      · rw [hs] at h
        cases h
      · rw [hs] at h
        cases h
      · exact hs
    rw [Scalar.isNaN_eq_false_iff, Binary64.le_self_iff] at hx
    obtain ⟨p, hp⟩ := hx
    rw [Binary64.le_iff, hinfinite]
    exact ⟨p, hp, _, rfl, Binary64.place_le_infinity hp⟩
  le_double h _ := Binary64.le_two_mul h

end JacobianAudit
