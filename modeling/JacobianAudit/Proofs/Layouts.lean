/-
**Coordinates and the blocks that they are grouped in.**

The same coordinates can be grouped in blocks in many ways. A bijection between the places of two
layouts says which coordinate of the one is which of the other. A column of a numeric Jacobian moves
one coordinate. It adds zero to the others of its block, and which ones these are depends on the
layout. Nothing else does: where no zero is noticed that is added, the points that are gone to are
the same, and matrices with the same columns have the same entries in another order.

Main definitions:

* `JacobianAudit.Place` — the places of a layout;
* `JacobianAudit.Rearranged` — two points with the same entries at partner places;
* `JacobianAudit.stepped` — a block after a step along one of its entries;
* `JacobianAudit.SameColumns` — matrices with the same columns at partner places.

Main results:

* `JacobianAudit.Rearranged.moved` — **a step along a coordinate and the step along its partner**;
* `JacobianAudit.SameColumns.perm` — **the same entries in another order**.
-/

import Mathlib.Algebra.BigOperators.Fin
import Mathlib.Data.Fintype.BigOperators
import JacobianAudit.Proofs.Obstacles
import JacobianAudit.Proofs.Steps
import JacobianAudit.Proofs.Threads

set_option autoImplicit false

namespace JacobianAudit

variable {α : Type}

/-! ### Places -/

/-- A place in blocks of given sizes: a block and an entry of it. -/
abbrev Place (sizes : List ℕ) : Type := (k : Fin sizes.length) × Fin sizes[k]

/-- What blocks hold at a place. -/
def Place.valueIn {sizes : List ℕ} (q : Place sizes) (blocks : List (List α)) : Option α :=
  blocks[q.1.val]?.bind fun block => block[q.2.val]?

/-- At partner places the two lists of blocks hold what is near to each other. -/
structure Rearranged {sizes sizes' : List ℕ} (near : α → α → Prop) (φ : Place sizes ≃ Place sizes')
    (blocks blocks' : List (List α)) : Prop where
  lengths : blocks.map List.length = sizes
  lengths' : blocks'.map List.length = sizes'
  entries (q : Place sizes) (x x' : α) : q.valueIn blocks = some x →
    (φ q).valueIn blocks' = some x' → near x x'

section Places

variable {sizes sizes' : List ℕ} {near : α → α → Prop} {φ : Place sizes ≃ Place sizes'}
  {blocks blocks' : List (List α)}

/-- Blocks of the right sizes hold something at every place. -/
theorem Place.exists_entry (q : Place sizes) (h : blocks.map List.length = sizes) :
    ∃ block x, blocks[q.1.val]? = some block ∧ block.length = sizes[q.1] ∧
      block[q.2.val]? = some x ∧ q.valueIn blocks = some x := by
  subst h
  obtain ⟨⟨k, hk⟩, i, hi⟩ := q
  have hk' : k < blocks.length := by simpa using hk
  have hi' : i < blocks[k].length := by simpa using hi
  exact ⟨blocks[k], blocks[k][i], List.getElem?_eq_getElem hk', by simp,
    List.getElem?_eq_getElem hi', by simp [valueIn, hk', hi']⟩

/-! ### Moving a coordinate -/

variable [Scalar α]

/-- A block after a step along one of its entries. Zero is added to the others. -/
def stepped (block : List α) (i : ℕ) (step : α) : List α :=
  List.zipWith (· + ·) block (tangentAlong block.length i step)

theorem length_stepped (block : List α) (i : ℕ) (step : α) :
    (stepped block i step).length = block.length := by
  simp [stepped]

theorem getElem?_stepped (block : List α) (i j : ℕ) (step : α) :
    (stepped block i step)[j]? =
      block[j]?.map fun x => x + if j = i then step else Scalar.zero := by
  rw [stepped, tangentAlong, List.getElem?_zipWith]
  cases hx : block[j]? with
  | none => rfl
  | some x =>
      obtain ⟨hj, -⟩ := List.getElem?_eq_some_iff.1 hx
      rw [List.getElem?_map, List.getElem?_range hj]
      rfl

/-- After a step along a coordinate, that coordinate has moved, zero was added to the others of its
block, and those of other blocks are as they were. -/
theorem Place.valueIn_stepped {p : Place sizes} {block : List α}
    (hblock : blocks[p.1.val]? = some block) (step : α) (q : Place sizes) :
    q.valueIn (blocks.set p.1 (stepped block p.2 step)) = (q.valueIn blocks).map fun x =>
      if q = p then x + step else if q.1 = p.1 then x + Scalar.zero else x := by
  obtain ⟨k, i⟩ := p
  obtain ⟨k', i'⟩ := q
  unfold valueIn
  by_cases hk : k' = k
  · subst hk
    obtain ⟨hlt, -⟩ := List.getElem?_eq_some_iff.1 hblock
    rw [List.getElem?_set_self hlt, hblock, Option.bind_some, Option.bind_some, getElem?_stepped]
    refine congrArg (Option.map · _) (funext fun x => ?_)
    by_cases hi : i' = i
    · subst hi
      simp
    · have hi' : i'.val ≠ i.val := fun h => hi (Fin.ext h)
      simp [hi, hi']
  · have hk' : k.val ≠ k'.val := fun h => hk (Fin.ext h.symm)
    have hne : (⟨k', i'⟩ : Place sizes) ≠ ⟨k, i⟩ := fun h => hk (congrArg Sigma.fst h)
    rw [List.getElem?_set_ne hk']
    simp [hne, hk]

/-- Zero can be added to each entry unnoticed. -/
def Unnoticed (near : α → α → Prop) (blocks : List (List α)) : Prop :=
  ∀ block ∈ blocks, ∀ x ∈ block, near x (x + Scalar.zero) ∧ near (x + Scalar.zero) x

/-- **A step along a coordinate and the same step along its partner** lead to points that are near
to each other, if no zero that is added is noticed. -/
theorem Rearranged.moved (h : Rearranged Eq φ blocks blocks') (hrefl : ∀ x, near x x)
    (hzero : Unnoticed near blocks) {p : Place sizes} {block block' : List α}
    (hblock : blocks[p.1.val]? = some block) (hblock' : blocks'[(φ p).1.val]? = some block')
    (step : α) :
    Rearranged near φ (blocks.set p.1 (stepped block p.2 step))
      (blocks'.set (φ p).1 (stepped block' (φ p).2 step)) where
  lengths := (map_length_set hblock (length_stepped _ _ _)).trans h.lengths
  lengths' := (map_length_set hblock' (length_stepped _ _ _)).trans h.lengths'
  entries q x x' hx hx' := by
    rw [Place.valueIn_stepped hblock] at hx
    rw [Place.valueIn_stepped hblock'] at hx'
    obtain ⟨y, hy, rfl⟩ := Option.map_eq_some_iff.1 hx
    obtain ⟨y', hy', rfl⟩ := Option.map_eq_some_iff.1 hx'
    obtain rfl : y = y' := h.entries q y y' hy hy'
    obtain ⟨row, hrow, hmem⟩ := Option.bind_eq_some_iff.1 hy
    obtain ⟨hright, hleft⟩ :=
      hzero row (List.mem_of_getElem? hrow) y (List.mem_of_getElem? hmem)
    by_cases hq : q = p
    · -- the coordinate itself
      subst hq
      simpa using hrefl _
    · -- any other one has been left alone or has had zero added, in each of the layouts
      have hq' : φ q ≠ φ p := fun h => hq (φ.injective h)
      rw [if_neg hq, if_neg hq']
      split <;> split
      · exact hrefl _
      · exact hleft
      · exact hright
      · exact hrefl _

end Places

/-! ### Entries of matrices -/

/-- What is held in a row of the column of a coordinate, where each block has a matrix, given row by
row, with a column for each of its entries. -/
def Place.entryIn {sizes : List ℕ} (q : Place sizes) (matrices : List (List α)) (r : ℕ) :
    Option α :=
  matrices[q.1.val]?.bind fun entries => entries[r * sizes[q.1] + q.2]?

/-- The columns of partners are the same. -/
def SameColumns {sizes sizes' : List ℕ} (φ : Place sizes ≃ Place sizes') (rows : ℕ)
    (matrices matrices' : List (List α)) : Prop :=
  ∀ (q : Place sizes), ∀ r < rows, q.entryIn matrices r = (φ q).entryIn matrices' r

/-- The entries of a list, one by one. -/
theorem coe_eq_sum_getElem? {xs : List α} {n : ℕ} (h : xs.length = n) :
    (xs : Multiset α) = ∑ j : Fin n, (xs[j.val]?.toList : Multiset α) := by
  subst h
  have hone : ∀ j : Fin xs.length, (xs[j.val]?.toList : Multiset α) = {xs[j.val]} := fun j => by
    rw [List.getElem?_eq_getElem j.isLt]
    rfl
  simp only [hone, Fin.sum_univ_fun_getElem xs fun x => ({x} : Multiset α)]
  exact (Multiset.sum_map_singleton (xs : Multiset α)).symm

/-- The entries of a matrix, column by column. -/
theorem coe_eq_sum_columns {xs : List α} {rows cols : ℕ} (h : xs.length = rows * cols) :
    (xs : Multiset α) =
      ∑ i : Fin cols, ∑ r : Fin rows, (xs[r.val * cols + i]?.toList : Multiset α) := by
  rw [coe_eq_sum_getElem? h, ← Fintype.sum_prod_type_right' fun (r : Fin rows) (i : Fin cols) =>
    (xs[r.val * cols + i]?.toList : Multiset α)]
  refine (Fintype.sum_equiv finProdFinEquiv _ _ fun p => ?_).symm
  rw [finProdFinEquiv_apply_val, Nat.add_comm, Nat.mul_comm]

section Matrices

variable {sizes sizes' : List ℕ} {φ : Place sizes ≃ Place sizes'} {rows : ℕ}
  {matrices matrices' : List (List α)}

/-- The entries of all matrices, place by place. -/
theorem coe_flatten_eq_sum (h : matrices.map List.length = sizes.map (rows * ·)) :
    (matrices.flatten : Multiset α) =
      ∑ q : Place sizes, ∑ r : Fin rows, ((q.entryIn matrices r).toList : Multiset α) := by
  have hlength : matrices.length = sizes.length := by simpa using congrArg List.length h
  have hblock : ∀ k : Fin sizes.length, ∑ i : Fin sizes[k], ∑ r : Fin rows,
      ((Place.entryIn ⟨k, i⟩ matrices r).toList : Multiset α) =
        (matrices[k.val]?.getD [] : List α) := by
    intro k
    have hk : k.val < matrices.length := k.isLt.trans_eq hlength.symm
    have hsize : matrices[k.val].length = rows * sizes[k] := by
      simpa [hk] using congrArg (fun l => l[k.val]?) h
    rw [List.getElem?_eq_getElem hk, Option.getD_some, coe_eq_sum_columns hsize]
    simp [Place.entryIn, List.getElem?_eq_getElem hk]
  have hjoin : (matrices.flatten : Multiset α) =
      ∑ k : Fin matrices.length, ((matrices[k.val]?.getD [] : List α) : Multiset α) := by
    simp [← Multiset.coe_join, Multiset.join,
      Fin.sum_univ_fun_getElem matrices fun entries => (entries : Multiset α)]
  rw [Fintype.sum_sigma, Finset.sum_congr rfl fun k _ => hblock k, hjoin,
    Fin.sum_univ_eq_sum_range fun k => ((matrices[k]?.getD [] : List α) : Multiset α),
    Fin.sum_univ_eq_sum_range fun k => ((matrices[k]?.getD [] : List α) : Multiset α), hlength]

/-- **The same entries in another order** are held by matrices with the same columns. -/
theorem SameColumns.perm (hsame : SameColumns φ rows matrices matrices')
    (h : matrices.map List.length = sizes.map (rows * ·))
    (h' : matrices'.map List.length = sizes'.map (rows * ·)) :
    matrices.flatten.Perm matrices'.flatten := by
  rw [← Multiset.coe_eq_coe, coe_flatten_eq_sum h, coe_flatten_eq_sum h']
  refine Fintype.sum_equiv φ _ _ fun q => Finset.sum_congr rfl fun r _ => ?_
  rw [hsame q r r.isLt]

/-- The sizes of row-major lists of entries. -/
theorem map_length_data {ts : List (Tensor α)}
    (h : ts.map Tensor.shape = sizes.map fun n => [rows, n]) :
    (ts.map Tensor.data).map List.length = sizes.map (rows * ·) := by
  have hlength : ∀ t : Tensor α, t.data.length = t.shape.size := Tensor.size_eq
  have hmap : (ts.map Tensor.data).map List.length = (ts.map Tensor.shape).map Shape.size := by
    simp [hlength]
  rw [hmap, h, List.map_map]
  exact List.map_congr_left fun n _ => by simp

/-- What is computed entry by entry from lists of the same sizes. -/
theorem map_length_zipWith {f : α → α → α} {xss yss : List (List α)}
    (h : xss.map List.length = yss.map List.length) :
    (List.zipWith (List.zipWith f) xss yss).map List.length = xss.map List.length := by
  induction xss generalizing yss with
  | nil => rfl
  | cons xs xss ih =>
      cases yss with
      | nil => cases h
      | cons ys yss =>
          obtain ⟨hhead, htail⟩ := List.cons.inj h
          rw [List.zipWith_cons_cons, List.map_cons, ih htail, List.map_cons, List.length_zipWith,
            hhead, Nat.min_self]

/-- What is computed entry by entry has the same columns, if the operands have. -/
theorem SameColumns.zipWith {f : α → α → α} {others others' : List (List α)}
    (h : SameColumns φ rows matrices matrices') (ho : SameColumns φ rows others others') :
    SameColumns φ rows (List.zipWith (List.zipWith f) matrices others)
      (List.zipWith (List.zipWith f) matrices' others') := by
  have hentry : ∀ {sizes : List ℕ} (q : Place sizes) (xss yss : List (List α)) (r : ℕ),
      q.entryIn (List.zipWith (List.zipWith f) xss yss) r =
        (q.entryIn xss r).bind fun x => (q.entryIn yss r).map (f x) := by
    intro sizes q xss yss r
    unfold Place.entryIn
    rw [List.getElem?_zipWith]
    cases xss[q.1.val]? with
    | none => rfl
    | some xs =>
        cases yss[q.1.val]? with
        | none => simp
        | some ys =>
            simp only [Option.bind_some, List.getElem?_zipWith]
            cases xs[r * sizes[q.1] + q.2]? <;> cases ys[r * sizes[q.1] + q.2]? <;> rfl
  intro q r hr
  rw [hentry, hentry, h q r hr, ho q r hr]

end Matrices

end JacobianAudit
