/-
**Holding entries constant splits a block.**

A subset is known in three ways: by the sorted list of the entries that are held constant, by the
list of those that are free, and by the columns that are left of the identity matrix. All of them
describe the same partition of the block. So a step moves the free entries, each by its own entry of
the tangent vector, and a projection keeps the free columns of a Jacobian, in their order. The
product that a projection is starts at a positive zero and adds zeros to every entry, which can be
told only from the sign of an entry that is zero.

Main definitions:

* `JacobianAudit.Subset.Accepted` — the settings of which a subset is made;
* `JacobianAudit.Subset.Splits` — the entries held constant and the free ones are a partition;
* `JacobianAudit.Subset.MovesFree` — what a step does;
* `JacobianAudit.Subset.KeepsFree` — what a projection does.

Main results:

* `JacobianAudit.Binary64.mul_one_same`, `JacobianAudit.Binary64.dot_column` — a product with a
  column of the identity matrix;
* `JacobianAudit.Subset.exists_ofSettings_iff` — what is accepted;
* `JacobianAudit.Subset.splits_block` — **a subset splits its block**.
-/

import JacobianAudit.Proofs.Doubling
import JacobianAudit.Proofs.Masking
import JacobianAudit.Proofs.Regrouping

set_option autoImplicit false

namespace JacobianAudit

/-! ### Columns of the identity matrix -/

namespace Binary64

open Float.Model (UnpackedFloat)
open Float.Model.UnpackedFloat

theorem unpack_one : (Scalar.one : Float).toModel.unpack =
    .finite .positive (2 ^ 52) (-52) (by decide) := rfl

/-- A finite number times one is itself. -/
theorem mul_one_same {x : Float} (hx : Scalar.isFinite x = true) : Same (x * Scalar.one) x := by
  rw [isFinite_eq] at hx
  rw [mul_eq, unpack_one]
  refine same_of_unpacked ?_
  cases hu : x.toModel.unpack with
  | notANumber => rw [hu] at hx; cases hx
  | infinity s => rw [hu] at hx; cases hx
  | zero s => exact .inr ⟨⟨_, rfl⟩, isZero_iff.2 ⟨s, hu⟩⟩
  | finite s m e hm =>
      have hsign : s * .positive = s := by cases s <;> rfl
      have hproduct : roundWithAccuracy .binary64 (s * .positive) (m * 2 ^ 52) (e - (52 : ℕ))
          .exact = .finite s m e hm := by
        rw [hsign, (stored_of_unpack hu).round_eq hm]
      exact .inl hproduct

/-- A zero that is added, of whatever sign. -/
theorem add_isZero_same (x : Float) {z : Float} (hz : Scalar.IsZero z) : Same (x + z) x :=
  (add_zeros x hz isZero_zero).trans (add_zero_same x)

/-- Zeros that are added to a number. -/
theorem foldl_add_zeros_same {zs : List Float} (hzs : ∀ z ∈ zs, Scalar.IsZero z) (start : Float) :
    Same (zs.foldl (· + ·) start) start := by
  induction zs generalizing start with
  | nil => exact .inl rfl
  | cons z zs ih =>
      have hrest := ih (fun y hy => hzs y (List.mem_cons_of_mem z hy)) (start + z)
      exact hrest.trans (add_isZero_same start (hzs z List.mem_cons_self))

/-- **A sum of products of which one factor is one and the others are zeros.** -/
theorem dot_column {n c : ℕ} {f g : ℕ → Float} (hc : c < n)
    (hf : ∀ k < n, Scalar.isFinite (f k) = true) (hone : g c = Scalar.one)
    (hzero : ∀ k < n, k ≠ c → Scalar.IsZero (g k)) : Same (Tensor.dot n f g) (f c) := by
  obtain ⟨before, after, hrange⟩ := List.append_of_mem (List.mem_range.2 hc)
  have hnodup : (c :: (before ++ after)).Nodup :=
    List.nodup_middle.1 (hrange ▸ List.nodup_range)
  have hzeros : ∀ ks : List ℕ, ks ⊆ before ++ after →
      ∀ z ∈ ks.map fun k => f k * g k, Scalar.IsZero z := by
    intro ks hks z hz
    obtain ⟨k, hk, rfl⟩ := List.mem_map.1 hz
    have hlt : k < n := by
      refine List.mem_range.1 (hrange ▸ ?_)
      rcases List.mem_append.1 (hks hk) with hk | hk
      · exact List.mem_append_left _ hk
      · exact List.mem_append_right _ (List.mem_cons_of_mem c hk)
    have hne : k ≠ c := fun h => (List.nodup_cons.1 hnodup).1 (h ▸ hks hk)
    exact mul_isZero (hf k hlt) (hzero k hlt hne)
  unfold Tensor.dot Scalar.sum
  rw [hrange, List.map_append, List.map_cons, List.foldl_append, List.foldl_cons, hone]
  have hbefore := foldl_add_zeros_same (hzeros before (List.subset_append_left ..)) Scalar.zero
  have hafter := foldl_add_zeros_same (hzeros after (List.subset_append_right ..))
  exact (hafter _).trans ((hbefore.add (mul_one_same (hf c hc))).trans (zero_add_same (f c)))

end Binary64

/-! ### What is accepted -/

namespace Subset

/-- The settings denote the size of a block and pairwise different entries of it. -/
structure Accepted (size : Setting) (constants : List Setting) (n : ℤ) (cs : List ℤ) : Prop where
  size_eq : size.toInt = .ok n
  constants_eq : constants.mapM Setting.toInt = .ok cs
  pos : 0 < n
  nodup : cs.Nodup
  within : ∀ c ∈ cs, 0 ≤ c ∧ c < n

variable {size : Setting} {constants : List Setting} {n : ℤ} {cs : List ℤ} {s : Subset}

/-- Once it is sorted, a list is strictly increasing exactly if nothing is in it twice. -/
theorem pairwise_mergeSort_iff {cs : List ℤ} : cs.mergeSort.Pairwise (· < ·) ↔ cs.Nodup := by
  have hsorted : cs.mergeSort.Pairwise (· ≤ ·) := List.pairwise_mergeSort' (· ≤ ·) cs
  have hperm : cs.mergeSort.Perm cs := List.mergeSort_perm cs _
  constructor
  · exact fun h => hperm.nodup_iff.1 (h.imp ne_of_lt)
  · exact fun h => (hsorted.and (hperm.nodup_iff.2 h)).imp fun hab => lt_of_le_of_ne hab.1 hab.2

/-- Such settings are accepted, and the subset is made of the sorted entries. -/
theorem Accepted.exists_subset (h : Accepted size constants n cs) :
    ∃ s, ofSettings size constants = .ok s ∧ (s.size : ℤ) = n ∧
      s.constant = cs.mergeSort.map Int.toNat := by
  have hsorted := pairwise_mergeSort_iff.2 h.nodup
  have hwithin : ∀ c ∈ cs.mergeSort, 0 ≤ c ∧ c < n := fun c hc =>
    h.within c (List.mem_mergeSort.1 hc)
  unfold ofSettings
  rw [h.size_eq]
  simp only [bind, Except.bind, dif_pos h.pos, h.constants_eq, dif_pos hsorted, dif_pos hwithin]
  exact ⟨_, rfl, Int.toNat_of_nonneg h.pos.le, rfl⟩

/-- **Accepted is what has a positive size and pairwise different entries within it.** -/
theorem exists_ofSettings_iff :
    (∃ s, ofSettings size constants = .ok s) ↔ ∃ n cs, Accepted size constants n cs := by
  constructor
  · rintro ⟨s, h⟩
    obtain ⟨n, hn, h⟩ := Except.bind_eq_ok_iff.1 h
    split at h
    · rename_i hpos
      obtain ⟨cs, hcs, h⟩ := Except.bind_eq_ok_iff.1 h
      simp only [] at h
      split at h
      · rename_i hsorted
        split at h
        · rename_i hwithin
          exact ⟨n, cs, hn, hcs, hpos, pairwise_mergeSort_iff.1 hsorted, fun c hc =>
            hwithin c (List.mem_mergeSort.2 hc)⟩
        · cases h
      · cases h
    · cases h
  · rintro ⟨n, cs, h⟩
    obtain ⟨s, hs, -⟩ := h.exists_subset
    exact ⟨s, hs⟩

/-! ### The partition -/

/-- The entries of a block of so many entries that are held constant, and those that are free. -/
structure Splits (s : Subset) (n : ℤ) (cs : List ℤ) : Prop where
  size_eq : (s.size : ℤ) = n
  mem_constant_iff (c : ℕ) : c ∈ s.constant ↔ (c : ℤ) ∈ cs
  free_sorted : s.free.Pairwise (· < ·)
  disjoint : ∀ c ∈ s.free, c ∉ s.constant
  cover (c : ℕ) : c < s.size ↔ c ∈ s.free ∨ c ∈ s.constant
  length_free : (s.free.length : ℤ) = n - cs.length
  tangentSize_eq {σ α : Type} :
    (Manifold.subset s : Manifold σ α).tangentSize = .whole (n - cs.length)

/-- Together, the free entries and the constant ones are the entries of the block. -/
theorem free_append_constant (s : Subset) : (s.free ++ s.constant).Perm (List.range s.size) := by
  have hnodup : (s.free ++ s.constant).Nodup :=
    List.nodup_append'.2 ⟨s.nodup_free, s.constant_sorted.imp ne_of_lt, fun c hc hconstant =>
      (s.mem_free_iff.1 hc).2 hconstant⟩
  refine (List.perm_ext_iff_of_nodup hnodup List.nodup_range).2 fun c => ?_
  rw [List.mem_append, List.mem_range, s.mem_free_iff]
  have := s.constant_lt c
  tauto

theorem Accepted.splits (h : Accepted size constants n cs)
    (hs : ofSettings size constants = .ok s) : s.Splits n cs := by
  obtain ⟨made, hmade, hsize, hconstant⟩ := h.exists_subset
  obtain rfl := Except.ok.inj (hmade.symm.trans hs)
  have hperm := made.free_append_constant
  have hfree : (made.free.length : ℤ) = n - cs.length := by
    have hlength := hperm.length_eq
    rw [List.length_append, hconstant, List.length_map, List.length_mergeSort,
      List.length_range] at hlength
    omega
  refine ⟨hsize, fun c => ?_, List.pairwise_lt_range.filter _,
    fun c hc => (made.mem_free_iff.1 hc).2, fun c => ?_, hfree, congrArg Setting.whole hfree⟩
  · rw [hconstant, List.mem_map]
    constructor
    · rintro ⟨i, hi, rfl⟩
      have hi := List.mem_mergeSort.1 hi
      rwa [Int.toNat_of_nonneg (h.within i hi).1]
    · exact fun hc => ⟨c, List.mem_mergeSort.2 hc, Int.toNat_natCast c⟩
  · rw [← List.mem_append, hperm.mem_iff, List.mem_range]

/-- A subset is determined by its size and by what is held constant. -/
theorem eq_of_mem_constant_iff {s s' : Subset} (hsize : s.size = s'.size)
    (h : ∀ c, c ∈ s.constant ↔ c ∈ s'.constant) : s = s' := by
  have hconstant := s.constant_sorted.eq_of_mem_iff s'.constant_sorted h
  cases s
  cases s'
  congr

/-- The order in which the constant entries are listed does not matter. -/
theorem Splits.eq {s s' : Subset} {cs' : List ℤ} (h : s.Splits n cs) (h' : s'.Splits n cs')
    (hsame : ∀ c, c ∈ cs ↔ c ∈ cs') : s = s' := by
  refine eq_of_mem_constant_iff (Int.ofNat.inj (h.size_eq.trans h'.size_eq.symm)) fun c => ?_
  rw [h.mem_constant_iff, h'.mem_constant_iff, hsame]

/-! ### Steps and projections -/

/-- A step moves the free entries, each by its own entry of the tangent vector. -/
structure MovesFree (σ : Type) (s : Subset) (xs delta ys : List Float) : Prop where
  plus_eq : (Manifold.subset s : Manifold σ Float).plus (.vector xs) (.vector delta) =
    pure (.vector ys)
  length_eq : ys.length = xs.length
  constant : ∀ c ∈ s.constant, ys[c]? = xs[c]?
  free {k c : ℕ} : s.free[k]? = some c →
    ∃ x d, xs[c]? = some x ∧ delta[k]? = some d ∧ ys[c]? = some (x + d)

/-- A projection keeps the free columns of a Jacobian, in their order. It takes them by an identity
matrix of the block's size, and where there is no array so large that is the fault. -/
structure KeepsFree (σ : Type) (s : Subset) (rows : ℕ) (xs : List Float) (j t : Tensor Float) :
    Prop where
  project_eq : project (.array j) (some (Manifold.subset s : Manifold σ Float)) (.vector xs) =
    Action.ofExcept ((Shape.allocate [s.size, s.size]).map fun _ => t)
  shape_eq : t.shape = [rows, s.free.length]
  get {i k c : ℕ} : i < rows → s.free[k]? = some c → Binary64.Same (t.get [i, k]) (j.get [i, c])

/-- The step on a vector of the block's size. -/
theorem movesFree (σ : Type) (s : Subset) {xs delta : List Float} (hxs : xs.length = s.size)
    (hdelta : delta.length = s.free.length) : s.MovesFree σ xs delta (s.shift xs delta) := by
  have hlength := s.length_shift xs delta
  have hplus := s.plus_vector hxs hdelta
  refine ⟨?_, hlength, fun c hc => ?_, fun {k c} hk => ?_⟩
  · show Action.ofExcept ((s.plus (.vector xs) (.vector delta)).map Supplied.array) = _
    rw [hplus]
    rfl
  · have hx : c < xs.length := hxs ▸ s.constant_lt c hc
    have hfixed : c ∉ s.free := fun hfree => (s.mem_free_iff.1 hfree).2 hc
    rw [List.getElem?_eq_getElem hx, List.getElem?_eq_getElem (hlength.symm ▸ hx),
      getElem_shift_constant hfixed _ hx]
  · have hx : c < xs.length := hxs ▸ s.free_lt c (List.mem_of_getElem? hk)
    have hd : k < delta.length := hdelta ▸ (List.getElem?_eq_some_iff.1 hk).1
    refine ⟨_, _, List.getElem?_eq_getElem hx, List.getElem?_eq_getElem hd, ?_⟩
    rw [List.getElem?_eq_getElem (hlength.symm ▸ hx), getElem_shift_free hk _ hx hd]

/-- Each entry of the product is a sum with a column of the identity matrix. -/
theorem keepsFree (σ : Type) (s : Subset) {rows : ℕ} {j : Tensor Float}
    (hj : j.shape = [rows, s.size]) (hfinite : ∀ x ∈ j.data, Scalar.isFinite x = true)
    (xs : List Float) :
    s.KeepsFree σ rows xs j (j.matmul rows s.size s.free.length s.freeColumns) := by
  refine ⟨?_, by rw [Tensor.matmul_eq, Tensor.shape_matrix], fun {i k c} hi hk => ?_⟩
  · rw [(Manifold.masks_subset s).project_eq, hj]
    refine (if_pos rfl).trans (congrArg Action.ofExcept ?_)
    rw [Manifold.room]
    cases Shape.allocate [s.size, s.size] <;> rfl
  · obtain ⟨hlt, hck⟩ := List.getElem?_eq_some_iff.1 hk
    have hc : c < s.size := s.free_lt c (List.mem_of_getElem? hk)
    have hone : (s.freeColumns : Tensor Float).get [c, k] = Scalar.one := by
      rw [get_freeColumns hc hlt, if_pos hk]
    rw [Tensor.matmul_eq, Tensor.get_matrix _ hi hlt]
    refine Binary64.dot_column hc (fun r hr => ?_) hone fun r hr hne => ?_
    · have hplace := getElem?_place hj hi hr
      exact hfinite _ (List.mem_of_getElem? hplace)
    · have hother : ¬s.free[k]? = some r := fun h => hne (Option.some.inj (h.symm.trans hk))
      rw [get_freeColumns hr hlt, if_neg hother]
      exact Binary64.isZero_zero

/-- **A subset splits its block.** It is accepted exactly if the size is positive and the entries
held constant are pairwise different and within the block. Then the free entries, in increasing
order, are all others, and only the set of constant entries matters. A step leaves the constant
entries alone and adds to each free entry its own entry of the tangent vector, and a projection of a
finite Jacobian keeps the free columns, in their order, if there can be an identity matrix of the
block's size to take them by. -/
theorem splits_block (σ : Type) (size : Setting) (constants : List Setting) :
    ((∃ s, ofSettings size constants = .ok s) ↔ ∃ n cs, Accepted size constants n cs) ∧
    ∀ n cs s, Accepted size constants n cs → ofSettings size constants = .ok s →
      s.Splits n cs ∧
      (∀ size' constants' cs' s', Accepted size' constants' n cs' → (∀ c, c ∈ cs ↔ c ∈ cs') →
        ofSettings size' constants' = .ok s' → s' = s) ∧
      (∀ xs delta, (xs.length : ℤ) = n → (delta.length : ℤ) = n - cs.length →
        ∃ ys, s.MovesFree σ xs delta ys) ∧
      ∀ (rows cols : ℕ) (j : Tensor Float) (xs : List Float), (cols : ℤ) = n →
        j.shape = [rows, cols] → (∀ x ∈ j.data, Scalar.isFinite x = true) →
          ∃ t, s.KeepsFree σ rows xs j t := by
  refine ⟨exists_ofSettings_iff, fun n cs s h hs => ?_⟩
  have hsplits := h.splits hs
  have hsize := hsplits.size_eq
  have hfree := hsplits.length_free
  refine ⟨hsplits, fun size' constants' cs' s' h' hsame hs' => ?_, fun xs delta hxs hdelta => ?_,
    fun rows cols j xs hcols hj hfinite => ?_⟩
  · exact (hsplits.eq (h'.splits hs') hsame).symm
  · exact ⟨_, movesFree σ s (by omega) (by omega)⟩
  · obtain rfl : cols = s.size := by omega
    exact ⟨_, keepsFree σ s hj hfinite xs⟩

/-- Of three entries the first and the last are held constant, listed the other way round and one of
them as a text. -/
theorem splits_block_middle : ∃ s, ofSettings (.whole 3) [.text "2", .whole 0] = .ok s ∧
    s.free = [1] ∧ (∃ ys, s.MovesFree Unit [1.0, 2.0, 3.0] [0.5] ys) ∧
    ∃ t, s.KeepsFree Unit 1 [1.0, 2.0, 3.0] (.matrix 1 3 fun _ c => Float.ofNat (4 + c)) t := by
  have haccepted : Accepted (.whole 3) [.text "2", .whole 0] 3 [2, 0] :=
    ⟨rfl, by decide +kernel, by decide, by decide, by decide⟩
  obtain ⟨hiff, hall⟩ := splits_block Unit (.whole 3) [.text "2", .whole 0]
  obtain ⟨s, hs⟩ := hiff.2 ⟨3, [2, 0], haccepted⟩
  obtain ⟨hsplits, -, hmoves, hkeeps⟩ := hall 3 [2, 0] s haccepted hs
  have hsize : s.size = 3 := Int.ofNat.inj hsplits.size_eq
  have hfree : s.free = [1] := by
    refine hsplits.free_sorted.eq_of_mem_iff (List.pairwise_singleton ..) fun c => ?_
    rw [s.mem_free_iff, hsize, hsplits.mem_constant_iff, List.mem_singleton, List.mem_pair]
    omega
  exact ⟨s, hs, hfree, hmoves _ _ rfl rfl, hkeeps 1 3 _ _ rfl rfl (by decide +kernel)⟩

end Subset

end JacobianAudit
