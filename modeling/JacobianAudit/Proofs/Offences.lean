/-
**The list of offending entries.**

A comparison of two matrices goes through their entries row by row, keeps those that are not within
the tolerance, and sorts them by a test of its own, which counts what is not a number as infinite.
The worst error is found separately. This module says what comes out: the list has every offending
entry once, worst first and row by row among equally bad ones, and its head carries the worst error.

An error is a magnitude or not a number, because it is a magnitude divided by one that is not below
one half. Without that the test would be no order of magnitudes: it counts whatever is not finite as
infinite, and there is a number that is neither finite nor above any other.

Main definitions:

* `JacobianAudit.errorAt` — the error at a row and a column;
* `JacobianAudit.Offence.rank`, `JacobianAudit.Offence.Precedes` — the order of the list;
* `JacobianAudit.BlockComparison.Ranks` — what a comparison says about two matrices.

Main results:

* `JacobianAudit.pairwise_mergeSort_stable` — a stable sort keeps the order of what it does not tell
  apart;
* `JacobianAudit.Binary64.isNaN_or_zero_le_relativeError` — an error is a magnitude, if it is a
  number;
* `JacobianAudit.offending_ranked` — **the offending entries, worst first**.
-/

import JacobianAudit.Proofs.Doubling
import JacobianAudit.Proofs.Masking
import JacobianAudit.Proofs.Regrouping

set_option autoImplicit false

namespace JacobianAudit

/-! ### Sorting -/

section Sorting

variable {β : Type} {le : β → β → Bool} {before : β → β → Prop} {l : List β}

theorem pairwise_snd_lt_zipIdx (l : List β) : l.zipIdx.Pairwise fun p q => p.2 < q.2 := by
  have hrange : (l.zipIdx.map Prod.snd).Pairwise (· < ·) := by
    rw [List.zipIdx_map_snd]
    exact List.pairwise_lt_range'
  exact List.pairwise_map.1 hrange

/-- **A stable sort** puts in order, and keeps the order of what it does not tell apart. -/
theorem pairwise_mergeSort_stable (htrans : ∀ a b c, le a b = true → le b c = true → le a c = true)
    (htotal : ∀ a b, (le a b || le b a) = true) (h : l.Pairwise before) :
    (l.mergeSort le).Pairwise fun a b => le a b = true ∧ (le b a = true → before a b) := by
  rw [← List.mergeSort_zipIdx, List.pairwise_map]
  have hsorted := List.pairwise_mergeSort (List.zipIdxLE_trans htrans) (List.zipIdxLE_total htotal)
    l.zipIdx
  have hperm := List.mergeSort_perm l.zipIdx (List.zipIdxLE le)
  -- no two items have the same place in the list
  have hplaces : (l.zipIdx.mergeSort (List.zipIdxLE le)).Pairwise fun p q => p.2 ≠ q.2 :=
    (hperm.pairwise_iff fun hne => hne.symm).2
      ((pairwise_snd_lt_zipIdx l).imp fun hlt => Nat.ne_of_lt hlt)
  refine (hsorted.and hplaces).imp_of_mem ?_
  rintro ⟨a, i⟩ ⟨b, j⟩ ha hb ⟨hle, hne⟩
  have hai := List.mem_zipIdx_iff_getElem?.1 (List.mem_mergeSort.1 ha)
  have hbj := List.mem_zipIdx_iff_getElem?.1 (List.mem_mergeSort.1 hb)
  dsimp only [List.zipIdxLE] at hle hne hai hbj ⊢
  cases hab : le a b with
  | false =>
      rw [hab] at hle
      cases hle
  | true =>
      refine ⟨rfl, fun hba => ?_⟩
      rw [hab, hba] at hle
      have hij : i < j := lt_of_le_of_ne (of_decide_eq_true hle) hne
      obtain ⟨hi, rfl⟩ := List.getElem?_eq_some_iff.1 hai
      obtain ⟨hj, rfl⟩ := List.getElem?_eq_some_iff.1 hbj
      exact List.pairwise_iff_getElem.1 h i j hi hj hij

end Sorting

/-! ### Errors are magnitudes -/

namespace Binary64

open Float.Model (Format UnpackedFloat)
open Float.Model.UnpackedFloat

variable {x y : Float}

/-- An unpacked number that is not below zero, or is none. -/
def NotBelow (u : UnpackedFloat) : Prop := ∀ p ∈ place? u, toLex (0, toLex (0, 0)) ≤ p

theorem isNaN_or_zero_le_iff :
    Scalar.isNaN x = true ∨ Scalar.le Scalar.zero x = true ↔ NotBelow x.toModel.unpack := by
  rw [isNaN_iff, le_iff, place_zero]
  constructor
  · rintro (hnan | ⟨p, hp, q, hq, hpq⟩) r hr
    · rw [hnan] at hr
      cases hr
    · obtain rfl := Option.some.inj hp
      obtain rfl : q = r := Option.some.inj (hq.symm.trans hr)
      exact hpq
  · intro h
    cases hx : place? x.toModel.unpack with
    | none =>
        refine .inl (of_not_not fun hnumber => ?_)
        obtain ⟨p, hp⟩ := exists_place_iff.2 hnumber
        rw [hx] at hp
        cases hp
    | some p => exact .inr ⟨_, rfl, p, rfl, h p hx⟩

theorem notBelow_finite {m : ℕ} {e : ℤ} (hm : 0 < m) : NotBelow (.finite .positive m e hm) := by
  rintro p hp
  obtain rfl := Option.some.inj hp
  simp [Prod.Lex.le_iff]

theorem notBelow_infinity : NotBelow (.infinity .positive) := by
  rintro p hp
  obtain rfl := Option.some.inj hp
  simp [Prod.Lex.le_iff]

theorem notBelow_zero (s : UnpackedFloat.Sign) : NotBelow (.zero s) := by
  rintro p hp
  obtain rfl := Option.some.inj hp
  exact le_rfl

theorem notBelow_notANumber : NotBelow .notANumber := nofun

/-- What is read from bits with a positive sign is not below zero. -/
theorem notBelow_unpack (b : BitVec 11) (v : BitVec 52) :
    NotBelow (unpack .binary64 (packComponents .binary64 .positive b v)) := by
  rw [unpack_eq_of_parts (ofBitVec_unpackSign _ _ _) unpackExponent_packComponents
    unpackMantissa_packComponents]
  split
  · split
    · exact notBelow_infinity
    · exact notBelow_notANumber
  · split
    · split
      · exact notBelow_zero _
      · exact notBelow_finite _
    · exact notBelow_finite _

/-- What is not below zero stays so when it is written and read. -/
theorem NotBelow.pack {u : UnpackedFloat} (h : NotBelow u) :
    NotBelow (Float.Model.pack u).unpack := by
  rcases u with (_ | _) | _ | s | ⟨_ | _, m, e, hm⟩
  · exact absurd (h _ rfl) (by simp [Prod.Lex.le_iff])
  · exact notBelow_infinity
  · exact notBelow_notANumber
  · rw [unpack_pack_zero]
    exact notBelow_zero s
  · exact absurd (h _ rfl) (by simp [Prod.Lex.le_iff])
  · rw [unpack_pack_eq]
    split
    · exact notBelow_unpack _ _
    · split <;> exact notBelow_unpack _ _

theorem notBelow_abs (x : Float) : NotBelow (Scalar.abs x).toModel.unpack := by
  rw [abs_eq]
  refine NotBelow.pack ?_
  rcases x.toModel.unpack with (_ | _) | _ | s | ⟨_ | _, m, e, hm⟩
  · exact notBelow_infinity
  · exact notBelow_infinity
  · exact notBelow_notANumber
  · exact notBelow_zero _
  · exact notBelow_finite hm
  · exact notBelow_finite hm

theorem notBelow_roundWithAccuracy (m : ℕ) (e : ℤ) (accuracy : Accuracy) :
    NotBelow (roundWithAccuracy .binary64 .positive m e accuracy) := by
  unfold roundWithAccuracy
  dsimp only
  split
  · exact notBelow_zero _
  · exact notBelow_finite _

/-- What is at least one half is a positive number or infinity. -/
theorem unpack_of_half_le (h : Scalar.le Scalar.half x = true) :
    (∃ m e hm, x.toModel.unpack = .finite .positive m e hm) ∨
      x.toModel.unpack = .infinity .positive := by
  have hzero : Scalar.le Scalar.zero x = true := OrderedScalar.le_trans (by decide +kernel) h
  refine (unpack_of_zero_le hzero).resolve_left ?_
  rintro ⟨s, hs⟩
  obtain ⟨p, hp, q, hq, hpq⟩ := (le_iff _ _).1 h
  rw [hs] at hq
  obtain rfl := Option.some.inj hq
  have hhalf : place? (Scalar.half : Float).toModel.unpack =
      some (toLex (1, toLex (-53, (4503599627370496 : ℤ)))) := by decide +kernel
  rw [hhalf] at hp
  obtain rfl := Option.some.inj hp
  simp [Prod.Lex.le_iff] at hpq

/-- A magnitude divided by what is at least one half is a magnitude, unless it is not a number. -/
theorem NotBelow.div {u v : UnpackedFloat} (hu : NotBelow u)
    (hv : v = .notANumber ∨ (∃ m e hm, v = .finite .positive m e hm) ∨ v = .infinity .positive) :
    NotBelow (.div .binary64 u v) := by
  rcases u with (_ | _) | _ | s | ⟨_ | _, m, e, hm⟩
  · exact absurd (hu _ rfl) (by simp [Prod.Lex.le_iff])
  · rcases hv with rfl | ⟨m', e', hm', rfl⟩ | rfl
    · exact notBelow_notANumber
    · exact notBelow_infinity
    · exact notBelow_notANumber
  · exact notBelow_notANumber
  · rcases hv with rfl | ⟨m', e', hm', rfl⟩ | rfl
    · exact notBelow_notANumber
    · exact notBelow_zero _
    · exact notBelow_zero _
  · exact absurd (hu _ rfl) (by simp [Prod.Lex.le_iff])
  · rcases hv with rfl | ⟨m', e', hm', rfl⟩ | rfl
    · exact notBelow_notANumber
    · exact notBelow_roundWithAccuracy _ _ _
    · exact notBelow_zero _

/-- **An error is a magnitude**, if it is a number. -/
theorem isNaN_or_zero_le_relativeError (a n : Float) :
    Scalar.isNaN (relativeError a n) = true ∨
      Scalar.le Scalar.zero (relativeError a n) = true := by
  rw [isNaN_or_zero_le_iff, relativeError, div_eq]
  refine ((notBelow_abs (a - n)).div ?_).pack
  rw [← isNaN_iff]
  cases hnan : Scalar.isNaN (Scalar.larger (Scalar.larger (Scalar.abs a) (Scalar.abs n))
      Scalar.half) with
  | true => exact .inl rfl
  | false =>
      have hself := Scalar.isNaN_eq_false_iff.1 hnan
      exact .inr (unpack_of_half_le (Scalar.larger_le_iff.1 hself).2)

/-- A place other than the one of zero is that of one number. -/
theorem eq_of_place_eq {u v : UnpackedFloat} {p : Place} (hu : place? u = some p)
    (hv : place? v = some p) (hne : ∀ s, u ≠ .zero s) : u = v := by
  rcases u with (_ | _) | _ | s | ⟨_ | _, m, e, hm⟩ <;>
    rcases v with (_ | _) | _ | t | ⟨_ | _, m', e', hm'⟩ <;>
    dsimp only [place?] at hu hv <;> cases hu <;> simp_all

/-- Two numbers of which neither is above the other are the same, unless they are zeros. -/
theorem eq_of_le_of_le (hxy : Scalar.le x y = true) (hyx : Scalar.le y x = true)
    (hne : ¬Scalar.IsZero x) : x = y := by
  obtain ⟨p, hp, q, hq, hpq⟩ := (le_iff _ _).1 hxy
  obtain ⟨q', hq', p', hp', hqp⟩ := (le_iff _ _).1 hyx
  obtain rfl : p = p' := Option.some.inj (hp.symm.trans hp')
  obtain rfl : q = q' := Option.some.inj (hq.symm.trans hq')
  obtain rfl := le_antisymm hpq hqp
  rw [← ofModel_pack_unpack x, eq_of_place_eq hp hq fun s hs => hne (isZero_iff.2 ⟨s, hs⟩),
    ofModel_pack_unpack y]

/-- What is above a magnitude that is not finite is not finite either. -/
theorem isFinite_of_le (hx : Scalar.le Scalar.zero x = true) (hxy : Scalar.le x y = true)
    (hy : Scalar.isFinite y = true) : Scalar.isFinite x = true := by
  rw [isFinite_eq] at hy ⊢
  rcases unpack_of_zero_le hx with ⟨s, hs⟩ | ⟨m, e, hm, hs⟩ | hs
  · rw [hs]
    rfl
  · rw [hs]
    rfl
  · obtain ⟨p, hp, q, hq, hpq⟩ := (le_iff _ _).1 hxy
    rw [hs] at hp
    obtain rfl := Option.some.inj hp
    rw [← le_antisymm hpq (place_le_infinity hq)] at hq
    rwa [hs, eq_of_place_eq (u := .infinity .positive) rfl hq nofun]

end Binary64

/-! ### The order of the list -/

namespace Offence

/-- The error of an entry as the order counts it: what is not a number is infinite. -/
def rank (o : Offence Float) : Float :=
  if Scalar.isNaN o.error then Binary64.infinity false else o.error

/-- An entry is in an earlier row, or in the same row further left. -/
def Before {α : Type} (o o' : Offence α) : Prop := o.row < o'.row ∨ o.row = o'.row ∧ o.col < o'.col

/-- The order of the list: the error does not increase, and where it stays the same the entries are
in row-major order. -/
def Precedes (o o' : Offence Float) : Prop :=
  Scalar.le o'.rank o.rank = true ∧ (Scalar.le o.rank o'.rank = true → o.Before o')

section Test

variable {α : Type} [Scalar α]

theorem atLeastAsBad_trans [OrderedScalar α] (a b c : Offence α) (hab : a.atLeastAsBad b = true)
    (hbc : b.atLeastAsBad c = true) : a.atLeastAsBad c = true := by
  simp only [atLeastAsBad, Bool.or_eq_true, Bool.and_eq_true, Bool.not_eq_true'] at hab hbc ⊢
  rcases hab with ha | ⟨hb, hab⟩
  · exact .inl ha
  · rcases hbc with hb' | ⟨hc, hbc⟩
    · rw [hb] at hb'
      cases hb'
    · exact .inr ⟨hc, OrderedScalar.le_trans hbc hab⟩

theorem atLeastAsBad_total [OrderedScalar α] (a b : Offence α) :
    (a.atLeastAsBad b || b.atLeastAsBad a) = true := by
  cases ha : a.isTop with
  | true => simp [atLeastAsBad, ha]
  | false =>
      cases hb : b.isTop with
      | true => simp [atLeastAsBad, hb]
      | false =>
          have hnumber : ∀ o : Offence α, o.isTop = false → Scalar.le o.error o.error = true := by
            intro o ho
            rw [isTop, Bool.or_eq_false_iff] at ho
            exact Scalar.isNaN_eq_false_iff.1 ho.1
          rcases OrderedScalar.le_total (hnumber a ha) (hnumber b hb) with h | h <;>
            simp [atLeastAsBad, ha, hb, h]

end Test

variable {o o' : Offence Float}

/-- An error that is a magnitude or not a number has a magnitude as its rank. -/
theorem zero_le_rank (h : Scalar.isNaN o.error = true ∨ Scalar.le Scalar.zero o.error = true) :
    Scalar.le Scalar.zero o.rank = true := by
  unfold rank
  split
  · decide +kernel
  · exact h.resolve_left ‹_›

/-- The test counts as infinite what has no finite rank. -/
theorem isTop_eq (o : Offence Float) : o.isTop = !Scalar.isFinite o.rank := by
  unfold isTop rank
  split
  · rename_i hnan
    rw [hnan, Bool.true_or]
    decide +kernel
  · rename_i hnumber
    rw [Bool.not_eq_true] at hnumber
    rw [hnumber, Bool.false_or]

/-- **The test compares the ranks** of errors that are magnitudes or not numbers. -/
theorem atLeastAsBad_eq (h : Scalar.isNaN o.error = true ∨ Scalar.le Scalar.zero o.error = true)
    (h' : Scalar.isNaN o'.error = true ∨ Scalar.le Scalar.zero o'.error = true) :
    o.atLeastAsBad o' = Scalar.le o'.rank o.rank := by
  rw [atLeastAsBad, isTop_eq, isTop_eq, Bool.not_not]
  cases hfinite : Scalar.isFinite o.rank with
  | false =>
      have hnumber : Scalar.isNaN o'.rank = false :=
        Scalar.isNaN_eq_false_iff.2 (OrderedScalar.le_self_of_le_right (zero_le_rank h'))
      rw [MeasuredScalar.le_of_infinite hnumber (zero_le_rank h) hfinite]
      rfl
  | true =>
      rw [Bool.not_true, Bool.false_or]
      cases hfinite' : Scalar.isFinite o'.rank with
      | false =>
          cases hle : Scalar.le o'.rank o.rank with
          | false => rfl
          | true =>
              rw [Binary64.isFinite_of_le (zero_le_rank h') hle hfinite] at hfinite'
              cases hfinite'
      | true =>
          -- an error with a finite rank is its own rank
          have hrank : ∀ p : Offence Float, Scalar.isFinite p.rank = true → p.rank = p.error := by
            intro p hp
            unfold rank at hp ⊢
            split at hp
            · exact absurd hp (by decide +kernel)
            · rename_i hnumber
              rw [if_neg hnumber]
          rw [Bool.true_and, hrank o hfinite, hrank o' hfinite']

end Offence

/-! ### The entries of the list -/

section Entries

variable {α : Type} [Scalar α]

/-- The error at a row and a column. -/
def errorAt (a n : Tensor α) (i j : ℕ) : α := relativeError (a.get [i, j]) (n.get [i, j])

/-- The entry at a row and a column, with its error. -/
def entryAt (a n : Tensor α) (i j : ℕ) : Offence α :=
  ⟨i, j, a.get [i, j], n.get [i, j], errorAt a n i j⟩

variable {a n : Tensor α} {rows cols : ℕ} {tolerance : α}

/-- An error is the one at some row and column. -/
theorem mem_zipWith_iff (ha : a.shape = [rows, cols]) (hn : n.shape = [rows, cols]) {e : α} :
    e ∈ List.zipWith relativeError a.data n.data ↔ ∃ i < rows, ∃ j < cols, e = errorAt a n i j := by
  have h := forall_zipWith_iff (f := relativeError) (q := (e ≠ ·)) ha hn
  rw [← not_iff_not, ← List.forall_mem_ne, h]
  simp [errorAt]

/-- **The listed entries** are those that are not within the tolerance. -/
theorem mem_offences_iff (ha : a.shape = [rows, cols]) (hn : n.shape = [rows, cols])
    {o : Offence α} :
    o ∈ offences cols a.data n.data (List.zipWith relativeError a.data n.data) tolerance ↔
      ∃ i < rows, ∃ j < cols, Scalar.le (errorAt a n i j) tolerance = false ∧
        o = entryAt a n i j := by
  have hposition : ∀ {i j : ℕ}, j < cols → (i * cols + j) / cols = i ∧ (i * cols + j) % cols = j :=
    fun {i j} hj => ⟨by rw [Nat.mul_comm, Nat.mul_add_div (by omega), Nat.div_eq_of_lt hj]; rfl,
      place_mod hj⟩
  simp only [offences, List.mem_map, List.mem_filter, List.mem_zipIdx_iff_getElem?,
    Bool.not_eq_true']
  constructor
  · rintro ⟨⟨⟨⟨x, y⟩, e⟩, k⟩, ⟨hk, he⟩, rfl⟩
    obtain ⟨hxy, hek⟩ := List.getElem?_zip_eq_some.1 hk
    obtain ⟨hx, hy⟩ := List.getElem?_zip_eq_some.1 hxy
    have hlt : k < rows * cols :=
      length_data_matrix ha ▸ (List.getElem?_eq_some_iff.1 hx).1
    obtain ⟨i, hi, j, hj, rfl⟩ := exists_row_col hlt
    rw [getElem?_place ha hi hj, Option.some_inj] at hx
    rw [getElem?_place hn hi hj, Option.some_inj] at hy
    subst hx hy
    rw [List.getElem?_zipWith, getElem?_place ha hi hj, getElem?_place hn hi hj] at hek
    obtain rfl := Option.some.inj hek
    refine ⟨i, hi, j, hj, he, ?_⟩
    dsimp only
    rw [(hposition hj).1, (hposition hj).2]
    rfl
  · rintro ⟨i, hi, j, hj, he, rfl⟩
    refine ⟨(((a.get [i, j], n.get [i, j]), errorAt a n i j), i * cols + j), ⟨?_, he⟩, ?_⟩
    · refine List.getElem?_zip_eq_some.2 ⟨List.getElem?_zip_eq_some.2
        ⟨getElem?_place ha hi hj, getElem?_place hn hi hj⟩, ?_⟩
      rw [List.getElem?_zipWith, getElem?_place ha hi hj, getElem?_place hn hi hj]
      rfl
    · dsimp only
      rw [(hposition hj).1, (hposition hj).2]
      rfl

/-- No entry is listed exactly when the worst error is within the tolerance. -/
theorem worstError_le_iff_offences_eq_nil [OrderedScalar α] (ha : a.shape = [rows, cols])
    (hn : n.shape = [rows, cols]) (ht : Scalar.le Scalar.zero tolerance = true) :
    Scalar.le (worstError (List.zipWith relativeError a.data n.data)) tolerance = true ↔
      offences cols a.data n.data (List.zipWith relativeError a.data n.data) tolerance = [] := by
  rw [worstError_le_iff ht, forall_zipWith_iff (q := fun e => Scalar.le e tolerance = true) ha hn,
    List.eq_nil_iff_forall_not_mem]
  constructor
  · intro h o ho
    obtain ⟨i, hi, j, hj, hle, -⟩ := (mem_offences_iff ha hn).1 ho
    rw [errorAt, h i hi j hj] at hle
    cases hle
  · intro h i hi j hj
    by_contra hle
    rw [Bool.not_eq_true] at hle
    exact h _ ((mem_offences_iff ha hn).2 ⟨i, hi, j, hj, hle, rfl⟩)

/-- What a comparison of two matrices lists. -/
theorem mem_offending_iff {block : Setting} {c : BlockComparison α} (ha : a.shape = [rows, cols])
    (hc : compareBlock block (.array a) (.array n) tolerance = .ok c) {o : Offence α} :
    o ∈ c.offending ↔ ∃ i < rows, ∃ j < cols, Scalar.le (errorAt a n i j) tolerance = false ∧
      o = entryAt a n i j := by
  obtain ⟨hn, rfl⟩ := (compareBlock_eq_ok_iff ha).1 hc
  exact List.mem_mergeSort.trans (mem_offences_iff ha hn)

/-- A comparison of two matrices passes exactly when it lists nothing. -/
theorem passed_iff_offending_eq_nil [OrderedScalar α] {block : Setting} {c : BlockComparison α}
    (ha : a.shape = [rows, cols]) (ht : Scalar.le Scalar.zero tolerance = true)
    (hc : compareBlock block (.array a) (.array n) tolerance = .ok c) :
    c.passed = true ↔ c.offending = [] := by
  obtain ⟨hn, rfl⟩ := (compareBlock_eq_ok_iff ha).1 hc
  refine (worstError_le_iff_offences_eq_nil ha hn ht).trans ?_
  rw [← List.length_eq_zero_iff, ← List.length_eq_zero_iff, List.length_mergeSort]

/-- The entries are listed row by row before they are sorted. -/
theorem pairwise_before_offences (cols : ℕ) (xs ys errors : List α) (tolerance : α) :
    (offences cols xs ys errors tolerance).Pairwise Offence.Before := by
  unfold offences
  rw [List.pairwise_map]
  refine ((pairwise_snd_lt_zipIdx _).filter _).imp ?_
  rintro ⟨p, k⟩ ⟨q, l⟩ hkl
  -- the rows of two places do not decrease, and within a row the columns increase
  have hrow : k / cols ≤ l / cols := Nat.div_le_div_right hkl.le
  show ((k / cols : ℕ) : ℤ) < ((l / cols : ℕ) : ℤ) ∨ ((k / cols : ℕ) : ℤ) = ((l / cols : ℕ) : ℤ) ∧
    ((k % cols : ℕ) : ℤ) < ((l % cols : ℕ) : ℤ)
  rcases Nat.lt_or_eq_of_le hrow with hlt | heq
  · exact .inl (by omega)
  · have hk := Nat.div_add_mod k cols
    have hl := Nat.div_add_mod l cols
    rw [heq] at hk
    exact .inr ⟨by omega, by omega⟩

end Entries

/-! ### What a comparison says -/

/-- What a comparison says about two matrices: which entries are not within the tolerance and in
which order they are listed, what the worst error is, and how the two agree with each other and with
the verdict. -/
structure BlockComparison.Ranks (a n : Tensor Float) (rows cols : ℕ) (tolerance : Float)
    (c : BlockComparison Float) : Prop where
  tolerance_eq : c.tolerance = tolerance
  mem_iff : ∀ o, o ∈ c.offending ↔ ∃ i < rows, ∃ j < cols,
    Scalar.le (errorAt a n i j) tolerance = false ∧ o = entryAt a n i j
  once : (c.offending.map fun o => (o.row, o.col)).Nodup
  ordered : c.offending.Pairwise Offence.Precedes
  isNaN_iff : Scalar.isNaN c.worst = true ↔
    ∃ i < rows, ∃ j < cols, Scalar.isNaN (errorAt a n i j) = true
  empty : rows * cols = 0 → c.worst = Scalar.zero
  attained : 0 < rows * cols → Scalar.isNaN c.worst = false →
    ∃ i < rows, ∃ j < cols, errorAt a n i j = c.worst
  bounds : Scalar.isNaN c.worst = false →
    ∀ i < rows, ∀ j < cols, Scalar.le (errorAt a n i j) c.worst = true
  passed_iff : c.passed = true ↔ c.offending = []
  head : Scalar.isNaN c.worst = false → ∀ o ∈ c.offending.head?, o.error = c.worst

section Comparison

variable {block : Setting} {a n : Tensor Float} {rows cols : ℕ} {tolerance : Float}

/-- Listed entries that are sorted by the test are in order. -/
theorem pairwise_precedes (ha : a.shape = [rows, cols]) (hn : n.shape = [rows, cols]) :
    ((offences cols a.data n.data (List.zipWith relativeError a.data n.data)
      tolerance).mergeSort Offence.atLeastAsBad).Pairwise Offence.Precedes := by
  refine (pairwise_mergeSort_stable Offence.atLeastAsBad_trans Offence.atLeastAsBad_total
    (pairwise_before_offences _ _ _ _ _)).imp_of_mem ?_
  have hmagnitude : ∀ o ∈ offences cols a.data n.data (List.zipWith relativeError a.data n.data)
      tolerance, Scalar.isNaN o.error = true ∨ Scalar.le Scalar.zero o.error = true := by
    intro o ho
    obtain ⟨i, -, j, -, -, rfl⟩ := (mem_offences_iff ha hn).1 ho
    exact Binary64.isNaN_or_zero_le_relativeError _ _
  intro o o' ho ho' h
  have hmo := hmagnitude o (List.mem_mergeSort.1 ho)
  have hmo' := hmagnitude o' (List.mem_mergeSort.1 ho')
  rwa [Offence.atLeastAsBad_eq hmo hmo', Offence.atLeastAsBad_eq hmo' hmo] at h

/-- The head of a list in order, all of whose errors are within a bound that one of them attains,
attains the bound. -/
theorem head_error_eq {worst : Float} {offending : List (Offence Float)}
    (hordered : offending.Pairwise Offence.Precedes)
    (hbounds : ∀ o ∈ offending, Scalar.le o.error worst = true)
    (hattained : ∃ o ∈ offending, o.error = worst) (hworst : ¬Scalar.IsZero worst) :
    ∀ o ∈ offending.head?, o.error = worst := by
  rintro o ho
  obtain ⟨rest, rfl⟩ : ∃ rest, offending = o :: rest := by
    cases offending with
    | nil => cases ho
    | cons o' rest =>
        obtain rfl := Option.some.inj ho
        exact ⟨rest, rfl⟩
  have hrank : ∀ o' ∈ o :: rest, o'.rank = o'.error := by
    intro o' ho'
    have hself := OrderedScalar.le_self_of_le_left (hbounds o' ho')
    rw [Offence.rank, Scalar.isNaN_eq_false_iff.2 hself]
    rfl
  obtain ⟨o', ho', rfl⟩ := hattained
  have hself := OrderedScalar.le_self_of_le_left (hbounds o' ho')
  have hle : Scalar.le o'.error o.error = true := by
    rcases List.mem_cons.1 ho' with rfl | hmem
    · exact hself
    · have hprecedes := List.rel_of_pairwise_cons hordered hmem
      rw [← hrank o' ho', ← hrank o List.mem_cons_self]
      exact hprecedes.1
  exact (Binary64.eq_of_le_of_le hle (hbounds o List.mem_cons_self) hworst).symm

/-! ### The worst error -/

/-- The worst error is not a number as soon as one error is not. -/
theorem isNaN_worstError_iff (ha : a.shape = [rows, cols]) (hn : n.shape = [rows, cols]) :
    Scalar.isNaN (worstError (List.zipWith relativeError a.data n.data)) = true ↔
      ∃ i < rows, ∃ j < cols, Scalar.isNaN (errorAt a n i j) = true := by
  have hlist : ∀ errors : List Float,
      Scalar.isNaN (worstError errors) = true ↔ ∃ e ∈ errors, Scalar.isNaN e = true := by
    intro errors
    rw [(isLargest_worstError errors).isNaN_iff]
    cases errors with
    | nil =>
        have hzero : Scalar.isNaN (Scalar.zero : Float) = false := by decide +kernel
        simp [hzero]
    | cons e rest => simp
  rw [hlist]
  constructor
  · rintro ⟨e, he, hnan⟩
    obtain ⟨i, hi, j, hj, rfl⟩ := (mem_zipWith_iff ha hn).1 he
    exact ⟨i, hi, j, hj, hnan⟩
  · rintro ⟨i, hi, j, hj, hnan⟩
    exact ⟨_, (mem_zipWith_iff ha hn).2 ⟨i, hi, j, hj, rfl⟩, hnan⟩

/-- A worst error that is a number is the error of an entry, if there is one. -/
theorem exists_errorAt_eq_worstError (ha : a.shape = [rows, cols]) (hn : n.shape = [rows, cols])
    (hpos : 0 < rows * cols)
    (hnumber : Scalar.isNaN (worstError (List.zipWith relativeError a.data n.data)) = false) :
    ∃ i < rows, ∃ j < cols,
      errorAt a n i j = worstError (List.zipWith relativeError a.data n.data) := by
  have hne : List.zipWith relativeError a.data n.data ≠ [] := by
    refine List.ne_nil_of_length_pos ?_
    rwa [List.length_zipWith, length_data_matrix ha, length_data_matrix hn, Nat.min_self]
  have hworst := (isLargest_worstError _).mem hnumber
  rw [if_neg (by simpa using hne)] at hworst
  obtain ⟨i, hi, j, hj, h⟩ := (mem_zipWith_iff ha hn).1 hworst
  exact ⟨i, hi, j, hj, h.symm⟩

/-- No error is above a worst error that is a number. -/
theorem errorAt_le_worstError (ha : a.shape = [rows, cols]) (hn : n.shape = [rows, cols])
    (hnumber : Scalar.isNaN (worstError (List.zipWith relativeError a.data n.data)) = false)
    {i j : ℕ} (hi : i < rows) (hj : j < cols) :
    Scalar.le (errorAt a n i j) (worstError (List.zipWith relativeError a.data n.data)) =
      true := by
  have hmem := (mem_zipWith_iff ha hn).2 ⟨i, hi, j, hj, rfl⟩
  have hne : List.zipWith relativeError a.data n.data ≠ [] := List.ne_nil_of_mem hmem
  refine (isLargest_worstError _).le hnumber _ ?_
  rwa [if_neg (by simpa using hne)]

/-! ### All together -/

/-- The head of the list carries the worst error, if that is a number. -/
theorem head_error_eq_worstError (ha : a.shape = [rows, cols]) (hn : n.shape = [rows, cols])
    (ht : Scalar.le Scalar.zero tolerance = true)
    (hnumber : Scalar.isNaN (worstError (List.zipWith relativeError a.data n.data)) = false) :
    ∀ o ∈ ((offences cols a.data n.data (List.zipWith relativeError a.data n.data)
      tolerance).mergeSort Offence.atLeastAsBad).head?,
      o.error = worstError (List.zipWith relativeError a.data n.data) := by
  intro o ho
  have hlisted : o ∈ offences cols a.data n.data (List.zipWith relativeError a.data n.data)
      tolerance := List.mem_mergeSort.1 (List.mem_of_mem_head? ho)
  -- the worst error is listed, since there is an entry that is not within the tolerance
  have hfailed : Scalar.le (worstError (List.zipWith relativeError a.data n.data)) tolerance =
      false := by
    rw [Bool.eq_false_iff, Ne, worstError_le_iff_offences_eq_nil ha hn ht]
    exact List.ne_nil_of_mem hlisted
  obtain ⟨i, hi, j, hj, -⟩ := (mem_offences_iff ha hn).1 hlisted
  obtain ⟨i, hi, j, hj, hworst⟩ :=
    exists_errorAt_eq_worstError ha hn (Nat.zero_lt_of_lt (row_col_lt hi hj)) hnumber
  refine head_error_eq (pairwise_precedes ha hn) ?_ ⟨entryAt a n i j, ?_, hworst⟩ ?_ o ho
  · intro o' ho'
    obtain ⟨i', hi', j', hj', -, rfl⟩ := (mem_offences_iff ha hn).1 (List.mem_mergeSort.1 ho')
    exact errorAt_le_worstError ha hn hnumber hi' hj'
  · exact List.mem_mergeSort.2 ((mem_offences_iff ha hn).2 ⟨i, hi, j, hj, hworst ▸ hfailed, rfl⟩)
  · intro hzero
    rw [OrderedScalar.le_trans (Bool.and_eq_true_iff.1 hzero).1 ht] at hfailed
    cases hfailed

/-- A comparison of two matrices ranks their entries. -/
theorem ranks_of_compareBlock {c : BlockComparison Float} (ha : a.shape = [rows, cols])
    (ht : Scalar.le Scalar.zero tolerance = true)
    (hc : compareBlock block (.array a) (.array n) tolerance = .ok c) :
    c.Ranks a n rows cols tolerance := by
  obtain ⟨hn, rfl⟩ := (compareBlock_eq_ok_iff ha).1 hc
  refine ⟨rfl, fun o => mem_offending_iff ha hc, ?once, pairwise_precedes ha hn,
    isNaN_worstError_iff ha hn, ?empty, exists_errorAt_eq_worstError ha hn,
    fun h _ hi _ hj => errorAt_le_worstError ha hn h hi hj, passed_iff_offending_eq_nil ha ht hc,
    head_error_eq_worstError ha hn ht⟩
  case once =>
    -- before they are sorted the entries are in row-major order
    refine ((List.mergeSort_perm _ _).map _).nodup_iff.2 (List.pairwise_map.2
      ((pairwise_before_offences _ _ _ _ _).imp ?_))
    rintro o o' (hrow | ⟨-, hcol⟩) heq
    · exact hrow.ne (Prod.mk.inj heq).1
    · exact hcol.ne (Prod.mk.inj heq).2
  case empty =>
    intro hzero
    have hdata : a.data = [] := List.eq_nil_of_length_eq_zero (by rw [length_data_matrix ha, hzero])
    simp [hdata, worstError]

/-- **The offending entries, worst first.** Two matrices of one shape are always compared. The list
has each entry once whose error is not within the tolerance, and nothing else. Errors do not
increase along it, where what is not a number counts as infinite, and equally bad entries stand row
by row. The worst error is not a number as soon as one error is not, zero where there are no
entries, and otherwise the largest of all. The block passes exactly when the list is empty, and the
head of the list has the worst error if that is a number. -/
theorem offending_ranked {analytic numeric : Supplied Float} (hanalytic : analytic.read = .ok a)
    (hnumeric : numeric.read = .ok n) (ha : a.shape = [rows, cols]) (hn : n.shape = [rows, cols])
    (ht : Scalar.le Scalar.zero tolerance = true) :
    ∃ c, compareBlock block analytic numeric tolerance = .ok c ∧ c.block = block ∧
      c.Ranks a n rows cols tolerance := by
  have hread : compareBlock block analytic numeric tolerance =
      compareBlock block (.array a) (.array n) tolerance := by
    simp only [compareBlock, hanalytic, hnumeric, Supplied.read_array]
  obtain ⟨c, hc⟩ : ∃ c, compareBlock block (.array a) (.array n) tolerance = .ok c :=
    ⟨_, (compareBlock_eq_ok_iff ha).2 ⟨hn, rfl⟩⟩
  have hblock : c.block = block := by
    rw [((compareBlock_eq_ok_iff ha).1 hc).2]
  exact ⟨c, hread.trans hc, hblock, ranks_of_compareBlock ha ht hc⟩

end Comparison

/-- Two rows with equally bad entries, an infinite error, errors that are not numbers, and an entry
without error. -/
def mixedAnalytic : Tensor Float :=
  ⟨[2, 3], [1.0, 2.0, 1.0 / 0.0, 0.0 / 0.0, 1e308, 3.0], rfl⟩

/-- The matrix that they are compared with. -/
def mixedNumeric : Tensor Float := ⟨[2, 3], [2.0, 1.0, 1.0, 0.0, -1e308, 3.0], rfl⟩

theorem offending_ranked_mixed :
    ((Supplied.array mixedAnalytic).read = .ok mixedAnalytic ∧
      (Supplied.array mixedNumeric).read = .ok mixedNumeric ∧
      mixedAnalytic.shape = [2, 3] ∧ mixedNumeric.shape = [2, 3] ∧
      Scalar.le Scalar.zero (0.25 : Float) = true) ∧
    ∃ c, compareBlock (.count 0) (.array mixedAnalytic) (.array mixedNumeric) 0.25 = .ok c ∧
      c.block = .count 0 ∧ c.Ranks mixedAnalytic mixedNumeric 2 3 0.25 := by
  have ht : Scalar.le Scalar.zero (0.25 : Float) = true := by decide +kernel
  exact ⟨⟨rfl, rfl, rfl, rfl, ht⟩, offending_ranked rfl rfl rfl rfl ht⟩

end JacobianAudit
