/-
**What a step computes.**

The steps of the library's manifolds are written over arrays of any shape. Between vectors of the
declared sizes nothing is stretched and nothing can go wrong: a flat step adds to each entry, a step
that holds entries constant adds to each of the others, and a step of a quaternion is a product.

Main definitions:

* `JacobianAudit.tangentAlong` — a step along one coordinate, as a tangent vector;
* `JacobianAudit.Subset.shift` — the free entries moved by the entries of a tangent vector;
* `JacobianAudit.Quaternion.ofList` — the quaternion with given parts.

Main results:

* `JacobianAudit.Euclidean.plus_vector`, `JacobianAudit.Subset.plus_vector`,
  `JacobianAudit.LinearMap.plus_vector`, `JacobianAudit.Quaternion.plus_vector` — **the steps
  between vectors**.
-/

import Mathlib.Data.List.Nodup
import JacobianAudit.Manifold.Basic
import JacobianAudit.Proofs.Agreement

set_option autoImplicit false

namespace JacobianAudit

variable {α : Type} [Scalar α]

/-! ### Entries -/

/-- The tangent vector that is `step` along one of `n` coordinates. -/
def tangentAlong (n i : ℕ) (step : α) : List α :=
  (List.range n).map fun j => if j = i then step else Scalar.zero

@[simp] theorem length_tangentAlong (n i : ℕ) (step : α) :
    (tangentAlong n i step).length = n := by
  simp [tangentAlong]

theorem get_vector {xs : List α} {c : ℕ} (h : c < xs.length) :
    (Tensor.vector xs).get [c] = xs[c] := by
  simp [Tensor.get, Shape.offset, List.getElem?_eq_getElem h]

theorem entryAt_vector {xs : List α} {c : ℕ} (h : c < xs.length) :
    Tensor.entryAt [xs.length] (Tensor.vector xs).data.toArray [c] = xs[c] :=
  (Tensor.entryAt_toArray (Tensor.vector xs) [c]).trans (get_vector h)

/-- A vector of one entry counts as stretched and is read at zero, where it is read anyway. -/
theorem unstretched_of_lt {n k : ℕ} (h : k < n) : Tensor.unstretched [n] [k] = [k] := by
  have hone : n = 1 → k = 0 := by omega
  by_cases hn : n = 1
  · simp [Tensor.unstretched, hn, hone hn]
  · simp [Tensor.unstretched, hn]

/-- The numbers of a vector are its entries. -/
theorem getElem_data {t : Tensor α} {n c : ℕ} (ht : t.shape = [n]) (h : c < t.data.length) :
    t.data[c] = t.get [c] := by
  simp [Tensor.get, ht, Shape.offset, List.getElem?_eq_getElem h]

omit [Scalar α] in
theorem Tensor.ext_data {a b : Tensor α} (hshape : a.shape = b.shape) (hdata : a.data = b.data) :
    a = b := by
  cases a
  cases b
  congr

/-- Matrices of one shape with the same entries are the same. -/
theorem Tensor.ext_get {a b : Tensor α} {rows cols : ℕ} (ha : a.shape = [rows, cols])
    (hb : b.shape = [rows, cols]) (h : ∀ i < rows, ∀ j < cols, a.get [i, j] = b.get [i, j]) :
    a = b := by
  have hdata : a.data = b.data := by
    have hla := length_data_matrix ha
    have hlb := length_data_matrix hb
    refine List.ext_getElem (hla.trans hlb.symm) fun k hk hk' => ?_
    have hcols : 0 < cols := by
      rcases Nat.eq_zero_or_pos cols with rfl | hc
      · simp [hla] at hk
      · exact hc
    have hi : k / cols < rows := (Nat.div_lt_iff_lt_mul hcols).2 (hla ▸ hk)
    have hkk : k / cols * cols + k % cols = k := Nat.div_add_mod' k cols
    have hentry := h (k / cols) hi (k % cols) (Nat.mod_lt k hcols)
    rw [get_of_lt ha (by omega), get_of_lt hb (by omega)] at hentry
    simpa only [hkk] using hentry
  exact Tensor.ext_data (ha.trans hb.symm) hdata

/-- A vector is its entries. -/
theorem Tensor.eq_vector {t : Tensor α} {xs : List α} (hshape : t.shape = [xs.length])
    (h : ∀ c (hc : c < xs.length), t.get [c] = xs[c]) : t = .vector xs := by
  have hl : t.data.length = xs.length := by simp [t.size_eq, hshape]
  refine Tensor.ext_data hshape (List.ext_getElem hl fun c hc hx => ?_)
  exact (getElem_data hshape hc).trans (h c hx)

/-! ### Flat steps -/

variable {xs delta : List α}

theorem Euclidean.plus_vector (hl : delta.length = xs.length) :
    Euclidean.plus (.vector xs) (.vector delta) =
      .ok (.vector (List.zipWith (· + ·) xs delta)) := by
  have hshape : (Tensor.vector xs).shape = (Tensor.vector delta).shape := by simp [hl]
  have hsum : (⟨(Tensor.vector xs).shape, List.zipWith (· + ·) xs delta,
      Tensor.length_zipWith _ hshape⟩ : Tensor α) = .vector (List.zipWith (· + ·) xs delta) :=
    Tensor.ext_data (by simp [hl]) rfl
  rw [← hsum]
  exact Tensor.zipWith_of_shape_eq _ hshape

/-- A matrix applied to a vector of as many entries as it has columns. -/
theorem Tensor.apply_vector {rows cols : ℕ} (a : Tensor α) (hl : delta.length = cols) :
    a.apply rows cols (.vector delta) = .ok (.vector ((List.range rows).map fun c =>
      Tensor.dot cols (fun k => a.get [c, k]) fun k => (Tensor.vector delta).get [k])) := by
  unfold Tensor.apply
  simp only [Tensor.shape_vector, List.reverse_singleton, hl, if_true]
  have hentry : ∀ k, Tensor.entryAt [cols] (Tensor.vector delta).data.toArray [k] =
      (Tensor.vector delta).get [k] := by
    intro k
    rw [← hl]
    exact Tensor.entryAt_toArray (Tensor.vector delta) [k]
  simp only [Tensor.entryAt_toArray, hentry]

theorem LinearMap.plus_vector (map : LinearMap α) (hxs : xs.length = map.rows)
    (hl : delta.length = map.cols) :
    map.plus (.vector xs) (.vector delta) =
      .ok (.vector (List.zipWith (· + ·) xs ((List.range map.rows).map fun c =>
        Tensor.dot map.cols (fun k => map.matrix.get [c, k])
          fun k => (Tensor.vector delta).get [k]))) := by
  unfold LinearMap.plus
  simp only [Supplied.vector, Supplied.read_array, bind, Except.bind,
    Tensor.apply_vector map.matrix hl]
  exact Euclidean.plus_vector (by simp [hxs])

/-! ### Steps that hold entries constant -/

namespace Subset

variable (space : Subset)

/-- No entry is listed twice. -/
theorem nodup_free : space.free.Nodup := List.nodup_range.filter _

/-- The free entries are those of the block that are not held constant. -/
theorem mem_free_iff {c : ℕ} : c ∈ space.free ↔ c < space.size ∧ c ∉ space.constant := by
  simp [free]

theorem free_lt : ∀ c ∈ space.free, c < space.size := fun _ hc =>
  (space.mem_free_iff.1 hc).1

/-- The free entries, each moved by its entry of a tangent vector. -/
def shift (xs delta : List α) : List α :=
  xs.mapIdx fun c x => ((space.free.idxOf? c).bind fun k => delta[k]?).elim x (x + ·)

@[simp] theorem length_shift (xs delta : List α) : (space.shift xs delta).length = xs.length :=
  List.length_mapIdx

variable {space}

/-- A free entry moves by its entry of the tangent vector. -/
theorem getElem_shift_free {c k : ℕ} (hk : space.free[k]? = some c)
    (hs : c < (space.shift xs delta).length) (hc : c < xs.length) (hd : k < delta.length) :
    (space.shift xs delta)[c] = xs[c] + delta[k] := by
  obtain ⟨hlt, rfl⟩ := List.getElem?_eq_some_iff.1 hk
  have hindex : space.free.idxOf? space.free[k] = some k := by
    refine List.idxOf?_eq_some_iff.2 ⟨hlt, rfl, fun j hj => ?_⟩
    exact fun hsame => absurd (space.nodup_free.getElem_inj_iff.1 hsame) (Nat.ne_of_lt hj)
  simp [shift, hindex, List.getElem?_eq_getElem hd]

/-- An entry that is held constant does not move. -/
theorem getElem_shift_constant {c : ℕ} (h : c ∉ space.free)
    (hs : c < (space.shift xs delta).length) (hc : c < xs.length) :
    (space.shift xs delta)[c] = xs[c] := by
  simp [shift, List.idxOf?_eq_none_iff.2 h]

theorem plus_vector (hxs : xs.length = space.size) (hl : delta.length = space.free.length) :
    space.plus (.vector xs) (.vector delta) = .ok (.vector (space.shift xs delta)) := by
  have hfree : space.free.all (· < xs.length) = true :=
    List.all_eq_true.2 fun c hc => decide_eq_true (hxs ▸ space.free_lt c hc)
  have hstretch : Shape.broadcast? [delta.length] [space.free.length] =
      some [space.free.length] := by
    rw [hl]
    exact Shape.broadcast?_self _
  unfold Subset.plus
  simp only [Supplied.vector, Supplied.read_array, Tensor.shape_vector, hfree, hstretch, bind,
    Except.bind, pure, Except.pure, if_true]
  refine congrArg Except.ok (Tensor.eq_vector (by simp) fun c hc => ?_)
  have hx : c < xs.length := by simpa using hc
  rw [Tensor.get_tabulate _ (show Shape.Contains [xs.length] [c] from ⟨hx, trivial⟩)]
  simp only [entryAt_vector hx]
  cases hk : space.free.idxOf? c with
  | none => exact (getElem_shift_constant (List.idxOf?_eq_none_iff.1 hk) hc hx).symm
  | some k =>
      obtain ⟨hlt, hck, -⟩ := List.idxOf?_eq_some_iff.1 hk
      have hd : k < delta.length := hl ▸ hlt
      simp only [unstretched_of_lt hd, entryAt_vector hd]
      exact (getElem_shift_free (List.getElem?_eq_some_iff.2 ⟨hlt, hck⟩) hc hx hd).symm

/-- Each column of the derivative has its one in the row of a free entry. -/
theorem get_freeColumns {c k : ℕ} (hc : c < space.size) (hk : k < space.free.length) :
    (space.freeColumns : Tensor α).get [c, k] =
      if space.free[k]? = some c then Scalar.one else Scalar.zero := by
  refine (Tensor.get_matrix (fun i j : ℕ => if space.free.toArray[j]? = some i then
    (Scalar.one : α) else Scalar.zero) hc hk).trans ?_
  rw [List.getElem?_toArray]

end Subset

/-! ### Steps of quaternions -/

namespace Quaternion

/-- A list of four numbers as a quaternion. -/
def ofList : List α → Quaternion α
  | [w, x, y, z] => ⟨w, x, y, z⟩
  | _ => ⟨Scalar.nan, Scalar.nan, Scalar.nan, Scalar.nan⟩

omit [Scalar α] in
theorem eq_of_length {xs : List α} (h : xs.length = 4) : ∃ w x y z, xs = [w, x, y, z] := by
  match xs, h with
  | [w, x, y, z], _ => exact ⟨w, x, y, z, rfl⟩

theorem product_vector {p q : List α} (hp : p.length = 4) (hq : q.length = 4) :
    product (.vector p) (.vector q) = .ok (.vector (mul (ofList p) (ofList q)).toList) := by
  obtain ⟨a, b, c, d, rfl⟩ := eq_of_length hp
  obtain ⟨w, x, y, z, rfl⟩ := eq_of_length hq
  rfl

theorem plus_vector (hxs : xs.length = 4) (hl : delta.length = 3)
    (hn : Scalar.eq (norm delta) Scalar.zero = false) :
    plus (.vector xs) (.vector delta) =
      .ok (.vector (mul (ofList (exponential (norm delta) delta)) (ofList xs)).toList) := by
  have hexp : (exponential (norm delta) delta).length = 4 := by simp [exponential, hl]
  have hv : rotationVector (Tensor.vector delta) = .ok delta := by
    match delta, hl with
    | [a, b, c], _ => rfl
  unfold plus
  simp only [Supplied.vector, Supplied.read_array, Tensor.data_vector, bind, Except.bind, hn,
    Bool.false_eq_true, if_false, hv]
  exact product_vector hexp hxs

/-- A step whose length counts as zero leads nowhere. -/
theorem plus_of_norm_zero (hn : Scalar.eq (norm delta) Scalar.zero = true) :
    plus (.vector xs) (.vector delta) = .ok (.vector xs) := by
  unfold plus
  simp [Supplied.vector, hn, bind, Except.bind, pure, Except.pure]

/-- The derivative of the step at zero is the table of signed parts. -/
theorem plusJacobian_vector (hxs : xs.length = 4) :
    ∃ t, plusJacobian (.vector xs) = .ok t ∧ t.shape = [4, 3] ∧
      ∀ c < 4, ∀ i < 3, t.get [c, i] =
        (((ofList xs).rows[c]?.bind fun row => row[i]?)).getD Scalar.nan := by
  obtain ⟨w, x, y, z, rfl⟩ := eq_of_length hxs
  refine ⟨_, rfl, rfl, fun c hc i hi => ?_⟩
  exact Tensor.get_tabulate _ (show Shape.Contains [4, 3] [c, i] from ⟨hc, hi, trivial⟩)

end Quaternion

end JacobianAudit
