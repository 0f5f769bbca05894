/-
**What the error of an entry tells.**

The error of two numbers is their difference, relative to the larger magnitude but never to less
than one half. In exact arithmetic it stays the same if the two numbers change places or are negated
together. It is at most two, because a difference is at most twice the larger magnitude. Where both
magnitudes are at most one the difference is divided by at most one, so the error is no smaller than
the difference. A comparison therefore notices every offset as large as its tolerance between
numbers below one, and nothing at all under a tolerance of two.

Main definitions:

* `JacobianAudit.errorScale` — what an error is relative to;
* `JacobianAudit.Measures` — what an error tells about two numbers;
* `JacobianAudit.BlockComparison.Notices` — what a comparison is certain to list, and what it never
  lists.

Main results:

* `JacobianAudit.abs_sub_eq_two_mul_errorScale_iff` — the differences that are as large as they can
  be;
* `JacobianAudit.Exact.measures_relativeError` — the error of two numbers;
* `JacobianAudit.errors_measure` — **the errors of two matrices, and what their comparison
  notices**.
-/

import Mathlib.Tactic.Linarith
import JacobianAudit.Proofs.Exactness
import JacobianAudit.Proofs.Offences

set_option autoImplicit false

namespace JacobianAudit

/-! ### What an error is relative to -/

/-- The larger of two magnitudes, but at least one half. -/
def errorScale (a n : ℚ) : ℚ := max (max |a| |n|) (1 / 2)

section Scale

variable {a n : ℚ}

theorem errorScale_comm (a n : ℚ) : errorScale a n = errorScale n a := by
  rw [errorScale, errorScale, max_comm |a|]

theorem errorScale_neg (a n : ℚ) : errorScale (-a) (-n) = errorScale a n := by
  rw [errorScale, errorScale, abs_neg, abs_neg]

theorem abs_left_le_errorScale (a n : ℚ) : |a| ≤ errorScale a n :=
  (le_max_left _ _).trans (le_max_left _ _)

theorem abs_right_le_errorScale (a n : ℚ) : |n| ≤ errorScale a n :=
  (le_max_right _ _).trans (le_max_left _ _)

theorem half_le_errorScale (a n : ℚ) : 1 / 2 ≤ errorScale a n := le_max_right _ _

theorem errorScale_pos (a n : ℚ) : 0 < errorScale a n :=
  one_half_pos.trans_le (half_le_errorScale a n)

theorem errorScale_le_one (ha : |a| ≤ 1) (hn : |n| ≤ 1) : errorScale a n ≤ 1 :=
  max_le (max_le ha hn) one_half_lt_one.le

theorem errorScale_lt_one (ha : |a| < 1) (hn : |n| < 1) : errorScale a n < 1 :=
  max_lt (max_lt ha hn) one_half_lt_one

/-- A difference is at most twice the larger magnitude. -/
theorem abs_sub_le_two_mul_errorScale (a n : ℚ) : |a - n| ≤ 2 * errorScale a n :=
  calc |a - n| ≤ |a| + |n| := abs_sub a n
    _ ≤ errorScale a n + errorScale a n :=
        add_le_add (abs_left_le_errorScale a n) (abs_right_le_errorScale a n)
    _ = 2 * errorScale a n := (two_mul _).symm

/-- **A difference is as large as it can be** only between opposite numbers that are not small. -/
theorem abs_sub_eq_two_mul_errorScale_iff :
    |a - n| = 2 * errorScale a n ↔ n = -a ∧ 1 / 2 ≤ |a| := by
  constructor
  · intro h
    have hsum : |a - n| ≤ |a| + |n| := abs_sub a n
    have ha := abs_left_le_errorScale a n
    have hn := abs_right_le_errorScale a n
    have hhalf := half_le_errorScale a n
    -- both magnitudes are as large as the scale, so the numbers are equal or opposite
    have habs : |a| = |n| := by linarith
    rcases abs_eq_abs.1 habs with rfl | rfl
    · rw [sub_self, abs_zero] at h
      linarith
    · exact ⟨(neg_neg n).symm, by linarith⟩
  · rintro ⟨rfl, hhalf⟩
    rw [errorScale, abs_neg, max_self, max_eq_left hhalf, sub_neg_eq_add, ← two_mul, abs_mul,
      abs_two]

end Scale

/-! ### The error of two numbers -/

/-- What an error tells about two numbers. -/
structure Measures (a n e : ℚ) : Prop where
  nonneg : 0 ≤ e
  le_two : e ≤ 2
  eq_zero_iff : e = 0 ↔ a = n
  eq_two_iff : e = 2 ↔ n = -a ∧ 1 / 2 ≤ |a|
  difference_le : |a| ≤ 1 → |n| ≤ 1 → |a - n| ≤ e
  difference_lt : |a| < 1 → |n| < 1 → a ≠ n → |a - n| < e

namespace Exact

variable [Inexact] (a n : Exact)

theorem relativeError_eq_div :
    (relativeError a n).value = |a.value - n.value| / errorScale a.value n.value :=
  value_relativeError a n

theorem relativeError_comm : relativeError a n = relativeError n a := by
  refine Exact.ext ?_
  rw [relativeError_eq_div, relativeError_eq_div, abs_sub_comm, errorScale_comm]

theorem relativeError_neg : relativeError (-a) (-n) = relativeError a n := by
  refine Exact.ext ?_
  rw [relativeError_eq_div, relativeError_eq_div, value_neg, value_neg, errorScale_neg,
    neg_sub_neg, abs_sub_comm]

/-- **The error of two numbers.** -/
theorem measures_relativeError : Measures a.value n.value (relativeError a n).value := by
  have hscale := errorScale_pos a.value n.value
  rw [relativeError_eq_div]
  refine ⟨div_nonneg (abs_nonneg _) hscale.le, ?le_two, ?eq_zero, ?eq_two, fun ha hn => ?le,
    fun ha hn hne => ?lt⟩
  case le_two =>
    rw [div_le_iff₀ hscale]
    exact abs_sub_le_two_mul_errorScale a.value n.value
  case eq_zero => rw [div_eq_zero_iff, or_iff_left hscale.ne', abs_eq_zero, sub_eq_zero]
  case eq_two => rw [div_eq_iff hscale.ne', abs_sub_eq_two_mul_errorScale_iff]
  case le =>
    rw [le_div_iff₀ hscale]
    exact mul_le_of_le_one_right (abs_nonneg _) (errorScale_le_one ha hn)
  case lt =>
    rw [lt_div_iff₀ hscale]
    exact mul_lt_of_lt_one_right (abs_sub_pos.2 hne) (errorScale_lt_one ha hn)

end Exact

/-! ### The errors of two matrices -/

section Errors

variable {α : Type} [Scalar α] {a n : Tensor α}

/-- The errors of two arrays of one shape. -/
def errorsOver (a n : Tensor α) (h : a.shape = n.shape) : Tensor α :=
  ⟨a.shape, List.zipWith relativeError a.data n.data, Tensor.length_zipWith _ h⟩

theorem relativeErrors_array (h : a.shape = n.shape) :
    relativeErrors (.array a) (.array n) = .ok (errorsOver a n h) :=
  errorsOf_of_shape_eq h

theorem get_errorsOver {rows cols i j : ℕ} (ha : a.shape = [rows, cols])
    (hn : n.shape = [rows, cols]) (hi : i < rows) (hj : j < cols) :
    (errorsOver a n (ha.trans hn.symm)).get [i, j] = errorAt a n i j := by
  have hplace := getElem?_place (t := errorsOver a n (ha.trans hn.symm)) ha hi hj
  rw [errorsOver, List.getElem?_zipWith, getElem?_place ha hi hj, getElem?_place hn hi hj] at hplace
  exact (Option.some.inj hplace).symm

end Errors

section Symmetries

variable [Inexact] {a n : Tensor Exact} (h : a.shape = n.shape)

/-- The errors stay the same if the arrays change places. -/
theorem errorsOver_comm : errorsOver n a h.symm = errorsOver a n h := by
  refine Tensor.ext_data h.symm ?_
  show List.zipWith relativeError n.data a.data = List.zipWith relativeError a.data n.data
  rw [List.zipWith_comm_of_comm Exact.relativeError_comm]

/-- The errors stay the same if the arrays are negated together. -/
theorem errorsOver_neg : errorsOver (a.map (-·)) (n.map (-·)) h = errorsOver a n h := by
  refine Tensor.ext_data rfl ?_
  show List.zipWith relativeError (a.data.map (-·)) (n.data.map (-·)) =
    List.zipWith relativeError a.data n.data
  rw [List.zipWith_map]
  exact congrArg (fun f => List.zipWith f a.data n.data) (funext₂ Exact.relativeError_neg)

end Symmetries

/-! ### Comparisons -/

/-- What a comparison of two matrices is certain to list, and what it never lists. -/
structure BlockComparison.Notices [Inexact] (a n : Tensor Exact) (rows cols : ℕ)
    (tolerance : Exact) (c : BlockComparison Exact) : Prop where
  offset : 0 < tolerance.value → ∀ i < rows, ∀ j < cols,
    |(a.get [i, j]).value| < 1 → |(n.get [i, j]).value| < 1 →
      tolerance.value ≤ |(a.get [i, j]).value - (n.get [i, j]).value| →
        c.passed = false ∧ entryAt a n i j ∈ c.offending
  nothing : 2 ≤ tolerance.value →
    c.passed = true ∧ c.offending = [] ∧ ∀ cap, c.render cap = ""

section Comparison

variable [Inexact] {a n : Tensor Exact} {rows cols : ℕ} {block : Setting} {tolerance : Exact}
  {c : BlockComparison Exact}

theorem notices_of_compareBlock (ha : a.shape = [rows, cols])
    (hc : compareBlock block (.array a) (.array n) tolerance = .ok c) :
    c.Notices a n rows cols tolerance := by
  have hpassed : 0 < tolerance.value → (c.passed = true ↔ c.offending = []) := fun ht =>
    passed_iff_offending_eq_nil ha ((Exact.le_iff _ _).2 ht.le) hc
  constructor
  · intro ht i hi j hj hai hnj hoffset
    have hne : (a.get [i, j]).value ≠ (n.get [i, j]).value :=
      sub_ne_zero.1 (abs_pos.1 (ht.trans_le hoffset))
    have hlt : tolerance.value < (errorAt a n i j).value :=
      hoffset.trans_lt ((Exact.measures_relativeError _ _).difference_lt hai hnj hne)
    have hlisted : entryAt a n i j ∈ c.offending := by
      refine (mem_offending_iff ha hc).2 ⟨i, hi, j, hj, ?_, rfl⟩
      rw [Exact.le_eq_decide, decide_eq_false_iff_not, not_le]
      exact hlt
    refine ⟨?_, hlisted⟩
    rw [Bool.eq_false_iff, Ne, hpassed ht]
    exact List.ne_nil_of_mem hlisted
  · intro ht
    have hnothing : c.offending = [] := by
      refine List.eq_nil_iff_forall_not_mem.2 fun o ho => ?_
      obtain ⟨i, -, j, -, hle, -⟩ := (mem_offending_iff ha hc).1 ho
      rw [Exact.le_eq_decide, decide_eq_false_iff_not] at hle
      exact hle ((Exact.measures_relativeError _ _).le_two.trans ht)
    have hpass := (hpassed (two_pos.trans_le ht)).2 hnothing
    exact ⟨hpass, hnothing, fun cap => if_pos hpass⟩

/-- **The errors of two matrices, and what their comparison notices.** Matrices of one shape have
errors, which stay the same if the matrices change places or are negated together. Each error is
between zero and two; it is zero exactly for equal entries, and two exactly for opposite ones of a
magnitude of at least one half. Between magnitudes of at most one it is no less than the difference,
and between different numbers of magnitudes below one it is greater. So a comparison lists every
offset that is at least its tolerance between entries below one, and nothing under a tolerance of at
least two. -/
theorem errors_measure (ha : a.shape = [rows, cols]) (hn : n.shape = [rows, cols]) :
    (∃ errors, relativeErrors (.array a) (.array n) = .ok errors ∧
      relativeErrors (.array n) (.array a) = .ok errors ∧
      relativeErrors (.array (a.map (-·))) (.array (n.map (-·))) = .ok errors ∧
      errors.shape = [rows, cols] ∧
      ∀ i < rows, ∀ j < cols,
        Measures (a.get [i, j]).value (n.get [i, j]).value (errors.get [i, j]).value) ∧
    ∀ block tolerance, ∃ c, compareBlock block (.array a) (.array n) tolerance = .ok c ∧
      c.Notices a n rows cols tolerance := by
  have hshape : a.shape = n.shape := ha.trans hn.symm
  constructor
  · refine ⟨errorsOver a n hshape, relativeErrors_array hshape, ?swapped, ?negated, ha,
      fun i hi j hj => ?_⟩
    case swapped => rw [relativeErrors_array hshape.symm, errorsOver_comm hshape]
    case negated =>
      rw [← errorsOver_neg hshape]
      exact relativeErrors_array _
    · rw [get_errorsOver ha hn hi hj]
      exact Exact.measures_relativeError _ _
  · intro block tolerance
    obtain ⟨c, hc⟩ : ∃ c, compareBlock block (.array a) (.array n) tolerance = .ok c :=
      ⟨_, (compareBlock_eq_ok_iff ha).2 ⟨hn, rfl⟩⟩
    exact ⟨c, hc, notices_of_compareBlock ha hc⟩

end Comparison

/-- An entry above one half, and one that is small. -/
def unevenAnalytic : Tensor Exact := ⟨[1, 2], [⟨3 / 4⟩, ⟨1 / 1000⟩], rfl⟩

/-- The opposite of the first entry, and zero. -/
def unevenNumeric : Tensor Exact := ⟨[1, 2], [⟨-(3 / 4)⟩, ⟨0⟩], rfl⟩

theorem errors_measure_uneven :
    letI := rough
    (unevenAnalytic.shape = [1, 2] ∧ unevenNumeric.shape = [1, 2]) ∧
    (∃ errors, relativeErrors (.array unevenAnalytic) (.array unevenNumeric) = .ok errors ∧
      (errors.get [0, 0]).value = 2) ∧
    (∃ c, compareBlock (.count 0) (.array unevenAnalytic) (.array unevenNumeric) ⟨1 / 1000⟩ =
      .ok c ∧ c.passed = false ∧ entryAt unevenAnalytic unevenNumeric 0 1 ∈ c.offending) ∧
    ∃ c, compareBlock (.count 0) (.array unevenAnalytic) (.array unevenNumeric) ⟨2⟩ = .ok c ∧
      c.passed = true := by
  let := rough
  have ha : unevenAnalytic.shape = [1, 2] := rfl
  have hn : unevenNumeric.shape = [1, 2] := rfl
  obtain ⟨⟨errors, herrors, -, -, -, hmeasures⟩, hcompare⟩ := errors_measure ha hn
  refine ⟨⟨ha, hn⟩, ⟨errors, herrors, ?_⟩, ?_, ?_⟩
  · have hopposite : (-(3 / 4) : ℚ) = -(3 / 4) ∧ 1 / 2 ≤ |(3 / 4 : ℚ)| :=
      ⟨rfl, by rw [abs_of_pos] <;> norm_num⟩
    exact (hmeasures 0 one_pos 0 two_pos).eq_two_iff.2 hopposite
  · obtain ⟨c, hc, hnotices⟩ := hcompare (.count 0) ⟨1 / 1000⟩
    have hsmall : |(1 / 1000 : ℚ)| < 1 := by rw [abs_of_pos] <;> norm_num
    have hzero : |(0 : ℚ)| < 1 := by rw [abs_zero]; exact one_pos
    have hoffset : (1 / 1000 : ℚ) ≤ |1 / 1000 - 0| := by rw [sub_zero]; exact le_abs_self _
    have htolerance : (0 : ℚ) < 1 / 1000 := by norm_num
    exact ⟨c, hc, hnotices.offset htolerance 0 one_pos 1 one_lt_two hsmall hzero hoffset⟩
  · obtain ⟨c, hc, hnotices⟩ := hcompare (.count 0) ⟨2⟩
    exact ⟨c, hc, (hnotices.nothing le_rfl).1⟩

end JacobianAudit
