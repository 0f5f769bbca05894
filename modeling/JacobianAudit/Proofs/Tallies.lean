/-
**What a probe says about all errors together.**

From the comparisons of its blocks a probe makes two numbers: the worst error, and the number of bad
components that the log counts in its first line. Both are told by the errors of all blocks put
together, and neither depends on the order in which these stand. So two probes whose matrices have
the same columns, in whatever blocks, say the same.

Main definitions:

* `JacobianAudit.Scalar.SameNumber` — equal scalars;
* `JacobianAudit.orZero` — the errors of a block, where none count as a zero;
* `JacobianAudit.headerLine` — the first line of a log;
* `JacobianAudit.badComponents`, `JacobianAudit.Record.Reports` — the number of bad components, and
  where a record shows it;
* `JacobianAudit.Progress.errors` — the errors of each block;
* `JacobianAudit.BlockComparison.Tallies` — what a comparison says about the errors of its block.

Main results:

* `JacobianAudit.Record.Reports.unique` — a record shows one number;
* `JacobianAudit.badComponents_eq`, `JacobianAudit.isLargest_of_tallies` — the two numbers in terms
  of all errors;
* `JacobianAudit.SameColumns.tallies` — **two layouts with the same columns**.
-/

import JacobianAudit.Proofs.Layouts
import JacobianAudit.Proofs.Maxima

set_option autoImplicit false

namespace JacobianAudit

variable {α : Type} [Scalar α]

/-! ### The largest of a list is one -/

namespace Scalar

/-- Two scalars are equal: neither is above the other, or neither is a number. -/
def SameNumber (x y : α) : Prop := eq x y = true ∨ isNaN x = true ∧ isNaN y = true

variable [OrderedScalar α] {x y : α} {xs ys : List α}

/-- Equal scalars are within the same bounds. -/
theorem SameNumber.le_eq (h : SameNumber x y) (t : α) : le x t = le y t := by
  rcases h with h | ⟨hx, hy⟩
  · obtain ⟨hxy, hyx⟩ := Bool.and_eq_true_iff.1 h
    exact Bool.eq_iff_iff.2 ⟨OrderedScalar.le_trans hyx, OrderedScalar.le_trans hxy⟩
  · rw [le_eq_false_of_isNaN hx, le_eq_false_of_isNaN hy]

omit [OrderedScalar α] in
/-- The largest of a list depends on what is in it and on nothing else. -/
theorem IsLargest.congr (h : ∀ y, y ∈ xs ↔ y ∈ ys) (hx : IsLargest xs x) : IsLargest ys x where
  isNaN_iff := by simpa only [h] using hx.isNaN_iff
  mem hnumber := (h x).1 (hx.mem hnumber)
  le hnumber y hy := hx.le hnumber y ((h y).2 hy)

omit [OrderedScalar α] in
/-- Two scalars that are both the largest of a list are equal. -/
theorem IsLargest.sameNumber (hx : IsLargest xs x) (hy : IsLargest xs y) : SameNumber x y := by
  cases hnan : isNaN x with
  | true => exact .inr ⟨hnan, hy.isNaN_iff.2 (hx.isNaN_iff.1 hnan)⟩
  | false =>
      have hnan' : isNaN y = false := by
        rw [← Bool.not_eq_true, hy.isNaN_iff, ← hx.isNaN_iff, hnan]
        exact Bool.false_ne_true
      exact .inl (Bool.and_eq_true_iff.2 ⟨hy.le hnan' x (hx.mem hnan), hx.le hnan y (hy.mem hnan')⟩)

end Scalar

/-! ### The number of bad components -/

/-- The number of bad components that a log counts: the offending entries of the blocks that did not
pass. -/
def badComponents (comparisons : List (BlockComparison α)) : ℕ :=
  ((comparisons.filter fun c => !c.passed).flatMap (·.offending)).length

/-- The first line of a log: how many entries, of how many blocks, and the worst error. -/
def headerLine (components blocks : ℕ) (worst : α) : String :=
  "Detected " ++ toString components ++ " bad Jacobian component(s) in " ++ toString blocks ++
    " parameter block(s). Worst relative error was " ++
    Decimal.general 6 (Scalar.quantity worst) ++ ".\n"

theorem summary_eq_headerLine (components blocks : ℕ) (worst : α) :
    summary components blocks worst = headerLine components blocks worst := rfl

/-- The number of bad components that a record shows: none, if the log is empty, or the number at
the head of the log. -/
inductive Record.Reports (record : Record α) : ℕ → Prop
  | none : record.log = "" → Reports record 0
  | some {n blocks : ℕ} {rest : String} :
      record.log = headerLine n blocks record.worst ++ rest → Reports record n

/-- What the log says after the number of bad components does not begin with a digit. -/
theorem takeWhile_headerLine (n blocks : ℕ) (worst : α) (rest : String) :
    (((headerLine n blocks worst ++ rest).toList).drop 9).takeWhile Char.isDigit =
      Nat.toDigits 10 n := by
  have hdigits : ∀ c ∈ Nat.toDigits 10 n, c.isDigit = true := fun c hc =>
    Nat.isDigit_of_mem_toDigits (by decide) le_rfl hc
  simp only [headerLine, String.toList_append, Nat.toString_eq_repr, Nat.toList_repr,
    List.append_assoc]
  rw [show "Detected ".toList = ['D', 'e', 't', 'e', 'c', 't', 'e', 'd', ' '] from rfl]
  simp only [List.cons_append, List.nil_append, List.drop_succ_cons, List.drop_zero]
  rw [List.takeWhile_append_of_pos hdigits]
  simp

/-- **A record shows one number** of bad components. -/
theorem Record.Reports.unique {record : Record α} {m n : ℕ} (h : record.Reports m)
    (h' : record.Reports n) : m = n := by
  cases h with
  | none h =>
      cases h' with
      | none => rfl
      | some h' =>
          rw [h] at h'
          exact absurd (String.append_eq_empty_iff.1 h'.symm).1 (summary_ne_empty _ _ _)
  | some h =>
      cases h' with
      | none h' =>
          rw [h'] at h
          exact absurd (String.append_eq_empty_iff.1 h.symm).1 (summary_ne_empty _ _ _)
      | some h' =>
          have hdigits := congrArg (fun s => (s.toList.drop 9).takeWhile Char.isDigit)
            (h.symm.trans h')
          simp only [takeWhile_headerLine] at hdigits
          calc
            m = Nat.ofDigitChars 10 (Nat.toDigits 10 m) 0 :=
              (Nat.ofDigitChars_toDigits (by decide) le_rfl).symm
            _ = Nat.ofDigitChars 10 (Nat.toDigits 10 n) 0 := by rw [hdigits]
            _ = n := Nat.ofDigitChars_toDigits (by decide) le_rfl

/-- The log of a comparison shows the number of bad components. -/
theorem Ending.reports_of_compared {cap : Int} {numResiduals : Setting}
    {sizes tangentSizes : List Setting} {before : Record α} {reading : Reading α}
    {progress : Progress α} {comparisons : List (BlockComparison α)} :
    ((Ending.compared reading progress comparisons).record cap numResiduals sizes tangentSizes
      before).Reports (badComponents comparisons) := by
  unfold badComponents
  cases hfailed : comparisons.filter fun c => !c.passed with
  | nil =>
      refine .none ?_
      show diagnosticLog comparisons cap = ""
      rw [diagnosticLog, hfailed]
      rfl
  | cons c rest =>
      have hlog : diagnosticLog comparisons cap =
          summary ((c :: rest).flatMap (·.offending)).length (c :: rest).length
            (worstOfBlocks comparisons) ++ String.join ((c :: rest).map (·.render cap)) := by
        rw [diagnosticLog, hfailed]
        rfl
      exact .some (hlog.trans (by rw [summary_eq_headerLine]; rfl))

/-! ### Errors and comparisons -/

/-- The errors of each block, row by row. -/
def Progress.errors (progress : Progress α) : List (List α) :=
  List.zipWith (List.zipWith relativeError) (progress.tangent.map Tensor.data)
    (progress.numericTangent.map Tensor.data)

/-- What the comparison of a block says about its errors: the worst one, and how many are not within
the tolerance. -/
structure BlockComparison.Tallies (tolerance : α) (errors : List α) (c : BlockComparison α) :
    Prop where
  worst_eq : c.worst = worstError errors
  tolerance_eq : c.tolerance = tolerance
  count_eq : c.offending.length = errors.countP fun e => !Scalar.le e tolerance

/-- An entry offends if its error is not within the tolerance. -/
theorem length_offences {cols : ℕ} {a n errors : List α} (ha : a.length = errors.length)
    (hn : n.length = errors.length) (tolerance : α) :
    (offences cols a n errors tolerance).length =
      errors.countP fun e => !Scalar.le e tolerance := by
  have herrors : ((a.zip n).zip errors).zipIdx.map (fun p => p.1.2) = errors := by
    have hsplit : (fun p : ((α × α) × α) × ℕ => p.1.2) = Prod.snd ∘ Prod.fst := rfl
    rw [hsplit, ← List.map_map, List.zipIdx_map_fst, List.map_snd_zip (by simp [ha, hn])]
  conv_rhs => rw [← herrors]
  rw [offences, List.length_map, ← List.countP_eq_length_filter, List.countP_map]
  rfl

theorem tallies_of_compareBlock {block : Setting} {a n : Tensor α} {tolerance : α} {rows cols : ℕ}
    {c : BlockComparison α} (ha : a.shape = [rows, cols])
    (h : compareBlock block (.array a) (.array n) tolerance = .ok c) :
    c.Tallies tolerance (List.zipWith relativeError a.data n.data) := by
  obtain ⟨hn, rfl⟩ := (compareBlock_eq_ok_iff ha).1 h
  have hlength := length_data_matrix ha
  have hlength' := length_data_matrix hn
  refine ⟨rfl, rfl, ?_⟩
  rw [List.length_mergeSort]
  exact length_offences (by simp [hlength, hlength']) (by simp [hlength, hlength']) tolerance

/-- Each block is compared by itself. -/
theorem tallies_of_compare {progress : Progress α} {tolerance : α}
    {comparisons : List (BlockComparison α)}
    (hshape : ∀ t ∈ progress.tangent, ∃ rows cols, t.shape = [rows, cols])
    (h : Checker.compare progress tolerance = .ok comparisons) :
    List.Forall₂ (fun errors c => c.Tallies tolerance errors) progress.errors comparisons := by
  have hpairs : progress.errors = (progress.tangent.zip progress.numericTangent).map fun p =>
      List.zipWith relativeError p.1.data p.2.data := by
    rw [Progress.errors, List.zipWith_map, List.zip_eq_zipWith, List.map_zipWith]
  rw [hpairs, ← List.zipIdx_map_fst 0 (progress.tangent.zip progress.numericTangent),
    List.map_map, List.forall₂_map_left_iff]
  have hmatrices : ∀ p ∈ (progress.tangent.zip progress.numericTangent).zipIdx,
      ∃ rows cols, p.1.1.shape = [rows, cols] := fun p hp =>
    hshape _ (List.of_mem_zip (List.fst_mem_of_mem_zipIdx hp)).1
  refine ((List.forall₂_and_left _ _).2 ⟨hmatrices, Except.mapM_eq_ok_iff.1 h⟩).imp
    fun p c hc => ?_
  obtain ⟨⟨rows, cols, ha⟩, hc⟩ := hc
  exact tallies_of_compareBlock ha hc

/-- The errors of a block, where one without errors counts as zero. -/
def orZero (errors : List α) : List α := if errors.isEmpty then [Scalar.zero] else errors

section Tallies

variable [OrderedScalar α] {tolerance : α} {errors : List (List α)}
  {comparisons : List (BlockComparison α)}
  (h : List.Forall₂ (fun errors c => c.Tallies tolerance errors) errors comparisons)

include h

/-- The bad components are the errors that are not within the tolerance: a block that passed has
none. -/
theorem badComponents_eq (ht : Scalar.le Scalar.zero tolerance = true) :
    badComponents comparisons = errors.flatten.countP fun e => !Scalar.le e tolerance := by
  unfold badComponents
  induction h with
  | nil => rfl
  | @cons es c errors comparisons hc _ ih =>
      rw [List.flatten_cons, List.countP_append, ← ih, ← hc.count_eq, List.filter_cons]
      cases hpassed : c.passed with
      | false => simp
      | true =>
          -- no error of a block that passed is above the tolerance
          have hnone : c.offending.length = 0 := by
            rw [BlockComparison.passed, hc.worst_eq, hc.tolerance_eq,
              worstError_le_iff ht] at hpassed
            rw [hc.count_eq, List.countP_eq_zero]
            intro e he
            rw [hpassed e he]
            exact Bool.false_ne_true
          simp [hnone]

/-- The worst error is the largest of all errors, where a block without errors counts as zero. -/
theorem isLargest_of_tallies (hne : errors ≠ []) :
    Scalar.IsLargest (errors.map orZero).flatten (worstOfBlocks comparisons) := by
  have hblocks : List.Forall₂ Scalar.IsLargest (errors.map orZero)
      (comparisons.map (·.worst)) := by
    rw [List.forall₂_map_left_iff, List.forall₂_map_right_iff]
    refine h.imp fun es c hc => ?_
    rw [hc.worst_eq]
    exact isLargest_worstError es
  refine .flatten hblocks (isLargest_worstOfBlocks ?_)
  rintro rfl
  exact hne (List.forall₂_nil_right_iff.1 h)

end Tallies

/-! ### Two layouts -/

section Layouts

variable {sizes sizes' : List ℕ} {rows : ℕ} {errors errors' : List (List α)}

/-- Where every block has an entry, either no block has errors or each one has. -/
theorem mem_padded_iff (hlengths : errors.map List.length = sizes.map (rows * ·))
    (hpos : ∀ n ∈ sizes, 0 < n) (hne : sizes ≠ []) {e : α} :
    e ∈ (errors.map orZero).flatten ↔ rows = 0 ∧ e = Scalar.zero ∨ e ∈ errors.flatten := by
  have hsize : ∀ es ∈ errors, ∃ n, 0 < n ∧ es.length = rows * n := by
    intro es hes
    obtain ⟨n, hn, hlength⟩ := List.mem_map.1
      (hlengths ▸ List.mem_map_of_mem (f := List.length) hes)
    exact ⟨n, hpos n hn, hlength.symm⟩
  rcases Nat.eq_zero_or_pos rows with rfl | hrows
  · have hempty : ∀ es ∈ errors, es = [] := by
      intro es hes
      obtain ⟨n, -, hlength⟩ := hsize es hes
      exact List.eq_nil_of_length_eq_zero (hlength.trans (Nat.zero_mul n))
    have hnonempty : errors ≠ [] := by
      rintro rfl
      exact hne (by simpa using hlengths.symm)
    have hpadded : ∀ es ∈ errors, orZero es = [Scalar.zero] :=
      fun es hes => by rw [hempty es hes]; rfl
    rw [List.map_congr_left hpadded, List.flatten_eq_nil_iff.2 hempty]
    simp [hnonempty]
  · have hfull : ∀ es ∈ errors, orZero es = es := by
      intro es hes
      obtain ⟨n, hn, hlength⟩ := hsize es hes
      have hlt : 0 < es.length := hlength ▸ Nat.mul_pos hrows hn
      rw [orZero, if_neg (by simpa using List.ne_nil_of_length_pos hlt)]
    rw [List.map_congr_left hfull, List.map_id']
    simp [hrows.ne']

variable [OrderedScalar α] {φ : Place sizes ≃ Place sizes'} {tolerance : α}
  {comparisons comparisons' : List (BlockComparison α)}

/-- **Two layouts with the same columns** have the same number of bad components, and the same worst
error. -/
theorem SameColumns.tallies (hsame : SameColumns φ rows errors errors')
    (hlengths : errors.map List.length = sizes.map (rows * ·))
    (hlengths' : errors'.map List.length = sizes'.map (rows * ·))
    (hpos : ∀ n ∈ sizes, 0 < n) (hpos' : ∀ n ∈ sizes', 0 < n) (hne : sizes ≠ [])
    (hne' : sizes' ≠ []) (ht : Scalar.le Scalar.zero tolerance = true)
    (h : List.Forall₂ (fun errors c => c.Tallies tolerance errors) errors comparisons)
    (h' : List.Forall₂ (fun errors c => c.Tallies tolerance errors) errors' comparisons') :
    badComponents comparisons = badComponents comparisons' ∧
      Scalar.SameNumber (worstOfBlocks comparisons) (worstOfBlocks comparisons') := by
  have hperm : errors.flatten.Perm errors'.flatten := hsame.perm hlengths hlengths'
  have hnonempty : ∀ {sizes : List ℕ} {errors : List (List α)}, sizes ≠ [] →
      errors.map List.length = sizes.map (rows * ·) → errors ≠ [] := by
    rintro sizes errors hne hlengths rfl
    exact hne (by simpa using hlengths.symm)
  constructor
  · rw [badComponents_eq h ht, badComponents_eq h' ht, hperm.countP_eq]
  · refine (isLargest_of_tallies h (hnonempty hne hlengths)).sameNumber
      ((isLargest_of_tallies h' (hnonempty hne' hlengths')).congr fun e => ?_)
    rw [mem_padded_iff hlengths' hpos' hne', mem_padded_iff hlengths hpos hne, hperm.mem_iff]

end Layouts

end JacobianAudit
