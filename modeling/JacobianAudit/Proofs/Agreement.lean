/-
**When two Jacobians agree.**

A comparison reduces two matrices to one number, the worst error, and two lists of such numbers to
the worst one of all. The log is made from the comparisons along a way of its own. This module
says what both amount to: two matrices agree within a tolerance if the error of every entry is
within it, and the worst errors, the verdict and the log say nothing else.

Main definitions:

* `JacobianAudit.Within` — two matrices of one shape agree entry by entry.

Main results:

* `JacobianAudit.forall_zipWith_iff` — what holds of all numbers of an entrywise result holds at
  every row and column;
* `JacobianAudit.passed_compareBlock_iff` — **a block passes exactly when its matrices agree**;
* `JacobianAudit.worstOfBlocks_le_iff` — the worst error over all blocks is within a tolerance
  exactly when each block's is;
* `JacobianAudit.diagnosticLog_eq_empty_iff` — the log is empty exactly when every block passed.
-/

import JacobianAudit.Comparison.Report
import JacobianAudit.Proofs.Order
import JacobianAudit.Proofs.Runs

set_option autoImplicit false

namespace JacobianAudit

variable {α : Type}

theorem length_data_matrix {t : Tensor α} {rows cols : ℕ} (h : t.shape = [rows, cols]) :
    t.data.length = rows * cols := by
  rw [t.size_eq, h]
  simp

variable [Scalar α]

/-- Two matrices of one shape agree within a tolerance: the error of every entry is within it. An
error that is not a number is within no tolerance, and a matrix without entries agrees with any of
its shape. -/
def Within (tolerance : α) (a n : Tensor α) : Prop :=
  ∃ rows cols, a.shape = [rows, cols] ∧ n.shape = [rows, cols] ∧
    ∀ i < rows, ∀ j < cols,
      Scalar.le (relativeError (a.get [i, j]) (n.get [i, j])) tolerance = true

/-! ### Entries of a matrix -/

theorem get_of_lt {t : Tensor α} {rows cols i j : ℕ} (h : t.shape = [rows, cols])
    (hl : i * cols + j < t.data.length) : t.get [i, j] = t.data[i * cols + j] := by
  simp [Tensor.get, h, Shape.offset, List.getElem?_eq_getElem hl]

theorem row_col_lt {rows cols i j : ℕ} (hi : i < rows) (hj : j < cols) :
    i * cols + j < rows * cols := by
  have h : (i + 1) * cols ≤ rows * cols := Nat.mul_le_mul_right cols hi
  rw [Nat.succ_mul] at h
  omega

/-- What holds of all numbers of an entrywise result holds at every row and column. -/
theorem forall_zipWith_iff {f : α → α → α} {q : α → Prop} {a n : Tensor α} {rows cols : ℕ}
    (ha : a.shape = [rows, cols]) (hn : n.shape = [rows, cols]) :
    (∀ e ∈ List.zipWith f a.data n.data, q e) ↔
      ∀ i < rows, ∀ j < cols, q (f (a.get [i, j]) (n.get [i, j])) := by
  have hla := length_data_matrix ha
  have hln := length_data_matrix hn
  rw [List.forall_mem_iff_getElem]
  simp only [List.length_zipWith, hla, hln, Nat.min_self, List.getElem_zipWith]
  constructor
  · intro h i hi j hj
    have hlt := row_col_lt hi hj
    rw [get_of_lt ha (by omega), get_of_lt hn (by omega)]
    exact h (i * cols + j) hlt
  · intro h k hk
    -- position `k` is row `k / cols` and column `k % cols`
    have hcols : 0 < cols := by
      rcases Nat.eq_zero_or_pos cols with rfl | hc
      · simp at hk
      · exact hc
    have hi : k / cols < rows := (Nat.div_lt_iff_lt_mul hcols).2 hk
    have hj : k % cols < cols := Nat.mod_lt k hcols
    have hk' : k / cols * cols + k % cols = k := Nat.div_add_mod' k cols
    have := h (k / cols) hi (k % cols) hj
    rw [get_of_lt ha (by omega), get_of_lt hn (by omega)] at this
    simpa only [hk'] using this

/-! ### One block -/

/-- Arrays of one shape have errors, entry by entry. -/
theorem errorsOf_of_shape_eq {a n : Tensor α} (h : a.shape = n.shape) :
    errorsOf a n =
      .ok ⟨a.shape, List.zipWith relativeError a.data n.data, Tensor.length_zipWith _ h⟩ := by
  rw [errorsOf, if_pos h, Tensor.zipWith_of_shape_eq _ h]

/-- What a comparison of matrices answers with. -/
theorem compareBlock_eq_ok_iff {block : Setting} {a n : Tensor α} {tolerance : α} {rows cols : ℕ}
    {c : BlockComparison α} (ha : a.shape = [rows, cols]) :
    compareBlock block (.array a) (.array n) tolerance = .ok c ↔
      n.shape = [rows, cols] ∧
        c = ⟨block, worstError (List.zipWith relativeError a.data n.data), tolerance,
          (offences cols a.data n.data (List.zipWith relativeError a.data n.data)
            tolerance).mergeSort Offence.atLeastAsBad⟩ := by
  by_cases hn : a.shape = n.shape
  · have hn' : n.shape = [rows, cols] := hn.symm.trans ha
    simp only [compareBlock, Supplied.read_array, bind, Except.bind, errorsOf_of_shape_eq hn, ha,
      pure, Except.pure, hn', true_and]
    exact ⟨fun h => (Except.ok.inj h).symm, fun h => congrArg Except.ok h.symm⟩
  · have he : errorsOf a n = .error (.size (.shapesDiffer a.shape n.shape)) := by
      rw [errorsOf, if_neg hn]
      rfl
    have hn' : ¬n.shape = [rows, cols] := fun h => hn (ha.trans h.symm)
    simp [compareBlock, bind, Except.bind, he, hn']

/-- Matrices of one shape can be compared. -/
theorem exists_comparisons (tolerance : α) {pairs : List ((Tensor α × Tensor α) × ℕ)}
    (h : ∀ p ∈ pairs, ∃ rows cols, p.1.1.shape = [rows, cols] ∧ p.1.2.shape = [rows, cols]) :
    ∃ comparisons, List.Forall₂ (fun p c =>
      compareBlock (.count p.2) (.array p.1.1) (.array p.1.2) tolerance = .ok c)
        pairs comparisons := by
  refine exists_forall₂ fun p hp => ?_
  obtain ⟨rows, cols, ha, hn⟩ := h p hp
  exact ⟨_, (compareBlock_eq_ok_iff ha).2 ⟨hn, rfl⟩⟩

/-! ### The log -/

theorem summary_ne_empty (components blocks : ℕ) (worst : α) :
    summary components blocks worst ≠ "" := by
  simp [summary]

/-- **The log is empty exactly when every block passed.** -/
theorem diagnosticLog_eq_empty_iff {comparisons : List (BlockComparison α)} {cap : Int} :
    diagnosticLog comparisons cap = "" ↔ ∀ c ∈ comparisons, c.passed = true := by
  have hfailed : (comparisons.filter fun c => !c.passed) = [] ↔
      ∀ c ∈ comparisons, c.passed = true := by
    simp [List.filter_eq_nil_iff]
  rw [← hfailed]
  unfold diagnosticLog
  cases comparisons.filter fun c => !c.passed with
  | nil => simp
  | cons c rest =>
      simp only [List.isEmpty_cons, Bool.false_eq_true, if_false, reduceCtorEq, iff_false]
      intro h
      exact summary_ne_empty _ _ _ (String.append_eq_empty_iff.1 h).1

variable [OrderedScalar α]

/-- The worst of some errors is within a tolerance exactly when all of them are. -/
theorem worstError_le_iff {errors : List α} {tolerance : α}
    (ht : Scalar.le Scalar.zero tolerance = true) :
    Scalar.le (worstError errors) tolerance = true ↔
      ∀ e ∈ errors, Scalar.le e tolerance = true := by
  cases errors with
  | nil => simp [worstError, ht]
  | cons e rest =>
      rw [worstError, Scalar.largest_le_iff]
      simp

/-- **A block passes exactly when its matrices agree.** -/
theorem passed_compareBlock_iff {block : Setting} {a n : Tensor α} {tolerance : α} {rows cols : ℕ}
    {c : BlockComparison α} (ht : Scalar.le Scalar.zero tolerance = true)
    (ha : a.shape = [rows, cols])
    (hc : compareBlock block (.array a) (.array n) tolerance = .ok c) :
    c.passed = true ↔ Within tolerance a n := by
  obtain ⟨hn, rfl⟩ := (compareBlock_eq_ok_iff ha).1 hc
  rw [BlockComparison.passed, worstError_le_iff ht,
    forall_zipWith_iff (q := fun e => Scalar.le e tolerance = true) ha hn]
  constructor
  · exact fun h => ⟨rows, cols, ha, hn, h⟩
  · rintro ⟨rows', cols', ha', -, h⟩
    rw [ha] at ha'
    obtain ⟨rfl, rfl⟩ : rows = rows' ∧ cols = cols' := by simpa using ha'
    exact h

/-! ### All blocks -/

/-- The worst error over all blocks is within a tolerance exactly when each block's is. -/
theorem worstOfBlocks_le_iff {comparisons : List (BlockComparison α)} {tolerance : α}
    (ht : Scalar.le Scalar.zero tolerance = true) :
    Scalar.le (worstOfBlocks comparisons) tolerance = true ↔
      ∀ c ∈ comparisons, Scalar.le c.worst tolerance = true := by
  unfold worstOfBlocks
  cases hnan : comparisons.any fun c => Scalar.isNaN c.worst with
  | true =>
      obtain ⟨c, hc, hcnan⟩ := List.any_eq_true.1 hnan
      have hno : Scalar.le (Scalar.nan : α) tolerance = false :=
        Scalar.le_eq_false_of_isNaN (OrderedScalar.nan_of_isNaN hcnan)
      have hc' := Scalar.le_eq_false_of_isNaN (t := tolerance) hcnan
      simp only [if_true, hno, Bool.false_eq_true, false_iff]
      intro h
      rw [h c hc] at hc'
      cases hc'
  | false =>
      have hnum : ∀ c ∈ comparisons, Scalar.isNaN c.worst = false := by
        simpa using hnan
      cases comparisons with
      | nil => simp [ht]
      | cons c rest =>
          have hrest : ∀ x ∈ rest.map (·.worst), Scalar.isNaN x = false := by
            intro x hx
            obtain ⟨d, hd, rfl⟩ := List.mem_map.1 hx
            exact hnum d (List.mem_cons_of_mem c hd)
          simp only [Bool.false_eq_true, if_false, List.map_cons]
          rw [Scalar.foldl_orLarger_le_iff (hnum c List.mem_cons_self) hrest]
          simp

/-- Each of a list of comparisons is within the tolerance exactly when its matrices agree. -/
theorem forall_worst_le_iff {tolerance : α} {pairs : List ((Tensor α × Tensor α) × ℕ)}
    {comparisons : List (BlockComparison α)} (ht : Scalar.le Scalar.zero tolerance = true)
    (hm : ∀ p ∈ pairs, ∃ rows cols, p.1.1.shape = [rows, cols])
    (h : List.Forall₂ (fun p c =>
      compareBlock (.count p.2) (.array p.1.1) (.array p.1.2) tolerance = .ok c)
        pairs comparisons) :
    (∀ c ∈ comparisons, Scalar.le c.worst tolerance = true) ↔
      ∀ p ∈ pairs, Within tolerance p.1.1 p.1.2 := by
  induction h with
  | nil => simp
  | cons hc _ ih =>
      obtain ⟨rows, cols, ha⟩ := hm _ List.mem_cons_self
      have hrest := ih fun p hp => hm p (List.mem_cons_of_mem _ hp)
      have hpass := passed_compareBlock_iff ht ha hc
      obtain ⟨-, rfl⟩ := (compareBlock_eq_ok_iff ha).1 hc
      rw [BlockComparison.passed] at hpass
      simp only [List.forall_mem_cons, hrest, hpass]

end JacobianAudit
