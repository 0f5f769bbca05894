/-
**What the worst error is the maximum of.**

The worst error of a block is found entry by entry, and the worst error of a probe block by block,
with two different maxima. Together they find the largest of all errors, where a block without
entries counts as zero and what is not a number prevails. So it does not matter how the entries are
distributed over blocks, nor in which order they stand.

Main definitions:

* `JacobianAudit.Scalar.IsLargest` — a scalar is the largest of a list;
* `JacobianAudit.blockErrors` — the errors of a block.

Main results:

* `JacobianAudit.Scalar.IsLargest.flatten` — the largest of the largest;
* `JacobianAudit.isLargest_worstOfBlocks` — the worst error over all blocks;
* `JacobianAudit.Checker.isLargest_of_compare` — **the worst error of a comparison is the largest of
  all errors**.
-/

import JacobianAudit.Proofs.Stages

set_option autoImplicit false

namespace JacobianAudit

variable {α : Type} [Scalar α]

/-! ### The largest of a list -/

namespace Scalar

/-- A scalar is the largest of a list: it is one of them and none is above it; but it is not a
number as soon as one of them is not. -/
structure IsLargest (xs : List α) (x : α) : Prop where
  isNaN_iff : isNaN x = true ↔ ∃ y ∈ xs, isNaN y = true
  mem : isNaN x = false → x ∈ xs
  le : isNaN x = false → ∀ y ∈ xs, le y x = true

/-- A bound that is one of the bounded is their largest, unless it is not a number. -/
theorem IsLargest.of_mem [OrderedScalar α] {xs : List α} {x : α} (hmem : x ∈ xs)
    (hle : isNaN x = false → ∀ y ∈ xs, Scalar.le y x = true) : IsLargest xs x := by
  refine ⟨⟨fun h => ⟨x, hmem, h⟩, ?_⟩, fun _ => hmem, hle⟩
  rintro ⟨y, hy, hnan⟩
  by_contra hx
  rw [Bool.not_eq_true] at hx
  have hbound := hle hx y hy
  rw [le_eq_false_of_isNaN hnan] at hbound
  cases hbound

theorem isLargest_singleton [OrderedScalar α] (x : α) : IsLargest [x] x := by
  refine .of_mem List.mem_cons_self fun h y hy => ?_
  rw [List.mem_singleton.1 hy]
  exact isNaN_eq_false_iff.1 h

omit [Scalar α] in
/-- What a fold picks is the start or an item, if every step picks one of two. -/
theorem foldl_mem {op : α → α → α} (hop : ∀ x y, op x y = x ∨ op x y = y) (start : α)
    (xs : List α) : xs.foldl op start ∈ start :: xs := by
  induction xs generalizing start with
  | nil => exact List.mem_cons_self
  | cons x xs ih =>
      rcases List.mem_cons.1 (ih (op start x)) with h | h
      · rw [List.foldl_cons, h]
        rcases hop start x with hpick | hpick
        · rw [hpick]
          exact List.mem_cons_self
        · rw [hpick]
          exact List.mem_cons_of_mem _ List.mem_cons_self
      · exact List.mem_cons_of_mem _ (List.mem_cons_of_mem _ h)

theorem largest_mem (start : α) (xs : List α) : largest start xs ∈ start :: xs := by
  refine foldl_mem (fun x y => ?_) start xs
  unfold larger
  split
  · exact .inl rfl
  · exact .inr rfl

theorem isLargest_largest [OrderedScalar α] (start : α) (xs : List α) :
    IsLargest (start :: xs) (largest start xs) :=
  .of_mem (largest_mem start xs) fun h =>
    List.forall_mem_cons.2 (largest_le_iff.1 (isNaN_eq_false_iff.1 h))

/-- **The largest of the largest** is the largest of all. -/
theorem IsLargest.flatten [OrderedScalar α] {xss : List (List α)} {ys : List α} {x : α}
    (h : List.Forall₂ IsLargest xss ys) (hx : IsLargest ys x) : IsLargest xss.flatten x := by
  have hleft : ∀ y ∈ ys, ∃ xs ∈ xss, IsLargest xs y := by
    intro y hy
    obtain ⟨xs, hxs, hlargest⟩ := exists_of_forall₂_mem h hy
    exact ⟨xs, hxs, hlargest⟩
  have hright : ∀ xs ∈ xss, ∃ y ∈ ys, IsLargest xs y := by
    intro xs hxs
    obtain ⟨y, hy, hlargest⟩ := exists_of_forall₂_mem h.flip hxs
    exact ⟨y, hy, hlargest⟩
  constructor
  · rw [hx.isNaN_iff]
    constructor
    · rintro ⟨y, hy, hnan⟩
      obtain ⟨xs, hxs, hlargest⟩ := hleft y hy
      obtain ⟨z, hz, hnan⟩ := hlargest.isNaN_iff.1 hnan
      exact ⟨z, List.mem_flatten.2 ⟨xs, hxs, hz⟩, hnan⟩
    · rintro ⟨z, hz, hnan⟩
      obtain ⟨xs, hxs, hz⟩ := List.mem_flatten.1 hz
      obtain ⟨y, hy, hlargest⟩ := hright xs hxs
      exact ⟨y, hy, hlargest.isNaN_iff.2 ⟨z, hz, hnan⟩⟩
  · intro hnumber
    have hmem := hx.mem hnumber
    obtain ⟨xs, hxs, hlargest⟩ := hleft x hmem
    exact List.mem_flatten.2 ⟨xs, hxs, hlargest.mem hnumber⟩
  · intro hnumber z hz
    obtain ⟨xs, hxs, hz⟩ := List.mem_flatten.1 hz
    obtain ⟨y, hy, hlargest⟩ := hright xs hxs
    have hyx := hx.le hnumber y hy
    have hynumber : isNaN y = false :=
      isNaN_eq_false_iff.2 (OrderedScalar.le_self_of_le_left hyx)
    exact OrderedScalar.le_trans (hlargest.le hynumber z hz) hyx

end Scalar

/-! ### The worst error -/

/-- The errors of a block's two Jacobians. A block without entries counts as zero. -/
def blockErrors (analytic numeric : Tensor α) : Except Fault (List α) := do
  let errors ← relativeErrors (.array analytic) (.array numeric)
  return if errors.data.isEmpty then [Scalar.zero] else errors.data

theorem isLargest_worstError [OrderedScalar α] (errors : List α) :
    Scalar.IsLargest (if errors.isEmpty then [Scalar.zero] else errors) (worstError errors) := by
  cases errors with
  | nil => exact Scalar.isLargest_singleton _
  | cons e rest => exact Scalar.isLargest_largest e rest

/-- The worst error of a block is the largest of its errors. -/
theorem isLargest_of_compareBlock [OrderedScalar α] {block : Setting} {a n : Tensor α}
    {tolerance : α} {c : BlockComparison α}
    (h : compareBlock block (.array a) (.array n) tolerance = .ok c) :
    ∃ errors, blockErrors a n = .ok errors ∧ Scalar.IsLargest errors c.worst := by
  obtain ⟨errors, herrors, h⟩ : ∃ errors, relativeErrors (.array a) (.array n) = .ok errors ∧
      c.worst = worstError errors.data := by
    obtain ⟨errors, herrors, h⟩ := Except.bind_eq_ok_iff.1
      (show relativeErrors (.array a) (.array n) >>= _ = .ok c from h)
    refine ⟨errors, herrors, ?_⟩
    split at h
    · rw [← Except.ok.inj h]
    · split at h
      · rw [← Except.ok.inj h]
      · cases h
  refine ⟨_, by rw [blockErrors, herrors]; rfl, ?_⟩
  rw [h]
  exact isLargest_worstError errors.data

/-- The worst error over all blocks is the largest of the blocks' worst errors. -/
theorem isLargest_worstOfBlocks [OrderedScalar α] {comparisons : List (BlockComparison α)}
    (hne : comparisons ≠ []) :
    Scalar.IsLargest (comparisons.map (·.worst)) (worstOfBlocks comparisons) := by
  unfold worstOfBlocks
  split
  · rename_i hany
    obtain ⟨c, hc, hnan⟩ := List.any_eq_true.1 hany
    have hself := OrderedScalar.nan_of_isNaN hnan
    refine ⟨iff_of_true hself ⟨c.worst, List.mem_map_of_mem hc, hnan⟩, fun h => ?_, fun h => ?_⟩
    all_goals
      rw [hself] at h
      cases h
  · rename_i hany
    have hnumbers : ∀ e ∈ comparisons.map (·.worst), Scalar.isNaN e = false := by
      intro e he
      obtain ⟨c, hc, rfl⟩ := List.mem_map.1 he
      rw [← Bool.not_eq_true]
      exact fun hnan => hany (List.any_eq_true.2 ⟨c, hc, hnan⟩)
    cases hw : comparisons.map (·.worst) with
    | nil => exact absurd (List.map_eq_nil_iff.1 hw) hne
    | cons e rest =>
        rw [hw] at hnumbers
        obtain ⟨he, hrest⟩ := List.forall_mem_cons.1 hnumbers
        refine .of_mem (Scalar.foldl_mem (fun x y => ?_) e rest) fun h => ?_
        · unfold Scalar.orLarger
          split
          · exact .inr rfl
          · exact .inl rfl
        · exact List.forall_mem_cons.2
            ((Scalar.foldl_orLarger_le_iff he hrest).1 (Scalar.isNaN_eq_false_iff.1 h))

/-- **The worst error of a comparison is the largest of all errors**, block by block and entry by
entry. -/
theorem Checker.isLargest_of_compare [OrderedScalar α] {progress : Progress α} {tolerance : α}
    {comparisons : List (BlockComparison α)}
    (h : Checker.compare progress tolerance = .ok comparisons) (hne : comparisons ≠ []) :
    ∃ errors, (progress.tangent.zip progress.numericTangent).mapM
        (fun p => blockErrors p.1 p.2) = .ok errors ∧
      Scalar.IsLargest errors.flatten (worstOfBlocks comparisons) := by
  have hblocks := (Except.mapM_eq_ok_iff.1 h).imp fun _ _ => isLargest_of_compareBlock
  -- the numbers of the blocks do not matter
  have hpairs : List.Forall₂ (fun (p : Tensor α × Tensor α) (c : BlockComparison α) =>
      ∃ errors, blockErrors p.1 p.2 = .ok errors ∧ Scalar.IsLargest errors c.worst)
      (progress.tangent.zip progress.numericTangent) comparisons := by
    rw [← List.zipIdx_map_fst 0 (progress.tangent.zip progress.numericTangent),
      List.forall₂_map_left_iff]
    exact hblocks
  obtain ⟨errors, hmap, hlargest⟩ := exists_forall₂_between hpairs
  rw [← List.forall₂_map_right_iff] at hlargest
  exact ⟨errors, Except.mapM_eq_ok_iff.2 hmap, .flatten hlargest (isLargest_worstOfBlocks hne)⟩

end JacobianAudit
