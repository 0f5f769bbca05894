/-
**What a manifold hides.**

A manifold that holds entries constant, or that moves along the columns of a matrix with rows of
zeros, has a derivative whose rows are zero for the entries that it cannot move. A Jacobian is
projected by multiplying it with that derivative, the zeros included. So the columns of the Jacobian
that belong to such entries are hidden, but not whether what stands in them is finite.

Main definitions:

* `JacobianAudit.Manifold.Freezes` — the entries that a manifold cannot move;
* `JacobianAudit.Manifold.Masks` — the derivative of its step, with zero rows;
* `JacobianAudit.BlockSpace.Hides`, `JacobianAudit.BlockSpace.SameSeen`,
  `JacobianAudit.BlockSpace.Spoilt` — hidden places in a Jacobian, Jacobians that agree on the
  others, and one that is not finite at a hidden place.

Main results:

* `JacobianAudit.Manifold.exists_masks` — a manifold that freezes something masks it;
* `JacobianAudit.BlockSpace.matmul_sameErrors` — **finite entries that are hidden make no
  difference**;
* `JacobianAudit.BlockSpace.exists_get_matmul_isNaN` — **other entries do**.
-/

import JacobianAudit.Proofs.Memory
import JacobianAudit.Proofs.Steps
import JacobianAudit.Proofs.Threads
import JacobianAudit.Proofs.Zeros

set_option autoImplicit false

namespace JacobianAudit

variable {σ : Type}

/-! ### Frozen entries -/

namespace Manifold

/-- The entries of a point that a manifold cannot move: those held constant, and those whose rows of
a matrix are zero. -/
def Freezes {α : Type} [Scalar α] : Manifold σ α → ℕ → Prop
  | subset space, i => i ∈ space.constant
  | linear map, i => i < map.rows ∧ ∀ j < map.cols, Scalar.IsZero (map.matrix.get [i, j])
  | _, _ => False

/-- The derivative of the manifold's step is the same matrix everywhere, if there is room for it,
with zeros in the rows of the frozen entries. -/
structure Masks (m : Manifold σ Float) (n r : ℕ) (step : Tensor Float) : Prop where
  ambientSize_eq : m.ambientSize = .count n
  tangentSize_eq : m.tangentSize = .count r
  shape_eq : step.shape = [n, r]
  stepJacobian_eq (xs : List Float) :
    stepJacobian m (.vector xs) = Action.ofExcept (m.room.map fun _ => step)
  zero (i : ℕ) : i < n → m.Freezes i → ∀ j < r, Scalar.IsZero (step.get [i, j])

theorem stepJacobian_of_constant {m : Manifold σ Float} {step : Tensor Float} {n r : ℕ}
    (hstep : ∀ x, m.plusJacobian x = Action.ofExcept (m.room.map fun _ => .array step))
    (hn : m.ambientSize = .count n) (hr : m.tangentSize = .count r) (hshape : step.shape = [n, r])
    (xs : List Float) :
    stepJacobian m (.vector xs) = Action.ofExcept (m.room.map fun _ => step) := by
  have hread : (Supplied.vector xs).read = .ok (.vector xs) := rfl
  unfold stepJacobian
  rw [Action.ofExcept_bind_eq hread, hstep, hn, hr]
  cases m.room with
  | error fault => rfl
  | ok _ => exact congrArg Action.ofExcept (readMatrix_of_shape hshape _)

/-- The derivative of a step that holds entries constant has zeros in their rows. -/
theorem masks_subset (space : Subset) :
    (subset space : Manifold σ Float).Masks space.size space.free.length space.freeColumns where
  ambientSize_eq := rfl
  tangentSize_eq := rfl
  shape_eq := rfl
  stepJacobian_eq := stepJacobian_of_constant (plusJacobian_subset space) rfl rfl rfl
  zero := by
    intro c hc hfrozen j hj
    have hne : ¬space.free[j]? = some c := fun hfree =>
      (space.mem_free_iff.1 (List.mem_of_getElem? hfree)).2 hfrozen
    rw [Subset.get_freeColumns hc hj, if_neg hne]
    exact Binary64.isZero_zero

/-- A manifold that freezes something has such a derivative. -/
theorem exists_masks {m : Manifold σ Float} {i : ℕ} (h : m.Freezes i) :
    ∃ n r step, m.Masks n r step := by
  cases m with
  | subset space => exact ⟨_, _, _, masks_subset space⟩
  | linear map =>
      exact ⟨_, _, _, rfl, rfl, map.shape_eq,
        stepJacobian_of_constant (fun _ => rfl) rfl rfl map.shape_eq,
        fun c _ hfrozen j hj => hfrozen.2 j hj⟩
  | _ => exact h.elim

/-- What is projected is multiplied with that matrix, if it has a column for every entry. -/
theorem Masks.project_eq {m : Manifold σ Float} {n r : ℕ} {step : Tensor Float}
    (h : m.Masks n r step) (j : Tensor Float) (xs : List Float) :
    project (.array j) (some m) (.vector xs) =
      match j.shape with
      | [rows, cols] =>
        if n = cols then Action.ofExcept (m.room.map fun _ => j.matmul rows n r step)
        else throw (.size (.columns cols m.ambientSize.shown))
      | shape => throw (.size (.notMatrix shape)) := by
  have hcolumns : step.columns = r := by rw [Tensor.columns, h.shape_eq]; rfl
  unfold project
  rw [Action.ofExcept_bind_eq (Supplied.read_array j)]
  rcases j.shape with _ | ⟨rows, _ | ⟨cols, _ | ⟨_, _⟩⟩⟩
  · rfl
  · rfl
  · simp only [h.ambientSize_eq, Setting.count, Setting.equals_whole, Int.natCast_inj,
      decide_eq_true_eq]
    split
    · next hn =>
      rw [h.stepJacobian_eq, hn]
      cases m.room with
      | error fault => rfl
      | ok _ => exact congrArg (fun k => Action.ofExcept (.ok (j.matmul rows cols k step))) hcolumns
    · rfl
  · rfl

end Manifold

/-! ### Hidden places -/

namespace BlockSpace

section

variable {α : Type} [Scalar α]

/-- A place in a Jacobian of the block, row by row, is hidden if its column belongs to an entry that
the block's manifold cannot move. -/
def Hides (space : BlockSpace σ α) (place : ℕ) : Prop :=
  ∃ m n, space.manifold = some m ∧ m.ambientSize = .count n ∧ m.Freezes (place % n)

/-- Two lists of entries that are the same where nothing is hidden. -/
def SameSeen (space : BlockSpace σ α) (xs ys : List α) : Prop :=
  ∀ place, ¬space.Hides place → xs[place]? = ys[place]?

/-- An entry at a hidden place is not finite, and there is a tangent coordinate. -/
def Spoilt (space : BlockSpace σ α) (xs : List α) : Prop :=
  space.tangentSize ≠ .count 0 ∧
    ∃ place x, space.Hides place ∧ xs[place]? = some x ∧ Scalar.isFinite x = false

theorem hides_iff {space : BlockSpace σ α} {m : Manifold σ α} {n : ℕ}
    (hm : space.manifold = some m) (hn : m.ambientSize = .count n) (place : ℕ) :
    space.Hides place ↔ m.Freezes (place % n) := by
  constructor
  · rintro ⟨m', n', hm', hn', h⟩
    obtain rfl := Option.some.inj (hm.symm.trans hm')
    obtain rfl : n = n' := Int.ofNat.inj (Setting.whole.inj (hn.symm.trans hn'))
    exact h
  · exact fun h => ⟨m, n, hm, hn, h⟩

end

end BlockSpace

/-- Two arrays of one shape whose entries are in a relation. -/
structure Tensor.Related {α : Type} (d : List α → List α → Prop) (t t' : Tensor α) : Prop where
  shape_eq : t.shape = t'.shape
  data : d t.data t'.data

theorem Tensor.Related.eq {α : Type} {d : List α → List α → Prop} {t t' : Tensor α}
    (h : t.Related d t') (hd : ∀ xs ys, d xs ys → xs = ys) : t = t' := by
  obtain ⟨shape, data, _⟩ := t
  obtain ⟨shape', data', _⟩ := t'
  obtain rfl : shape = shape' := h.shape_eq
  obtain rfl : data = data' := hd _ _ h.data
  rfl

/-! ### Places of a matrix -/

/-- Every place of a matrix is in a row and a column. -/
theorem exists_row_col {rows cols place : ℕ} (h : place < rows * cols) :
    ∃ i < rows, ∃ c < cols, place = i * cols + c := by
  have hcols : 0 < cols := Nat.pos_of_mul_pos_left (Nat.zero_lt_of_lt h)
  exact ⟨place / cols, (Nat.div_lt_iff_lt_mul hcols).2 h, place % cols, Nat.mod_lt place hcols,
    (Nat.div_add_mod' place cols).symm⟩

theorem getElem?_place {α : Type} [Scalar α] {t : Tensor α} {rows cols i c : ℕ}
    (ht : t.shape = [rows, cols]) (hi : i < rows) (hc : c < cols) :
    t.data[i * cols + c]? = some (t.get [i, c]) := by
  have hlt : i * cols + c < t.data.length := length_data_matrix ht ▸ row_col_lt hi hc
  rw [List.getElem?_eq_getElem hlt, get_of_lt ht hlt]

theorem place_mod {i c n : ℕ} (hc : c < n) : (i * n + c) % n = c := by
  rw [Nat.mul_add_mod', Nat.mod_eq_of_lt hc]

/-- Matrices whose entries have the same errors, row by row and column by column. -/
theorem sameErrors_of_get {α : Type} [Scalar α] {a a' : Tensor α} {rows cols : ℕ}
    (ha : a.shape = [rows, cols]) (ha' : a'.shape = [rows, cols])
    (h : ∀ i < rows, ∀ k < cols, ∀ x,
      relativeError (a.get [i, k]) x = relativeError (a'.get [i, k]) x) : SameErrors a a' := by
  refine ⟨⟨rows, cols, ha⟩, ha.trans ha'.symm, fun n hn => ?_⟩
  have hla := length_data_matrix ha
  have hla' := length_data_matrix ha'
  refine List.ext_getElem (by simp [hla, hla']) fun place hp hp' => ?_
  rw [List.getElem_zipWith, List.getElem_zipWith]
  have hlt : place < a.data.length := by
    rw [List.length_zipWith] at hp
    omega
  obtain ⟨i, hi, k, hk, rfl⟩ := exists_row_col (hla ▸ hlt)
  have hsame := h i hi k hk
  rw [get_of_lt ha hlt, get_of_lt ha' (by omega)] at hsame
  exact hsame _

namespace BlockSpace

variable {space : BlockSpace σ Float} {m : Manifold σ Float} {n r rows : ℕ}
  {j j' step : Tensor Float}

/-! ### Products -/

/-- **Finite entries that are hidden make no difference** to the product but for the signs of
zeros, and so none to its errors. -/
theorem matmul_sameErrors (hm : space.manifold = some m) (h : m.Masks n r step)
    (hj : j.shape = [rows, n]) (hseen : j.Related space.SameSeen j')
    (hfine : ¬space.Spoilt j.data) (hfine' : ¬space.Spoilt j'.data) :
    SameErrors (j.matmul rows n r step) (j'.matmul rows n r step) := by
  have hj' : j'.shape = [rows, n] := hseen.shape_eq ▸ hj
  rw [Tensor.matmul_eq, Tensor.matmul_eq]
  refine sameErrors_of_get rfl rfl fun i hi k hk => Binary64.relativeError_same ?_
  rw [Tensor.get_matrix _ hi hk, Tensor.get_matrix _ hi hk]
  have htangent : space.tangentSize ≠ .count 0 := by
    simp only [tangentSize, hm, h.tangentSize_eq, Setting.count, ne_eq, Setting.whole.injEq]
    omega
  refine Binary64.dot_same fun c hc => ?_
  have hplace := getElem?_place hj hi hc
  have hplace' := getElem?_place hj' hi hc
  have hhides : space.Hides (i * n + c) ↔ m.Freezes c := by
    rw [hides_iff hm h.ambientSize_eq, place_mod hc]
  by_cases hfrozen : m.Freezes c
  · -- both factors are finite, so both products are zeros
    have hzero := h.zero c hc hfrozen k hk
    have hfinite : Scalar.isFinite (j.get [i, c]) = true := by
      by_contra hno
      exact hfine ⟨htangent, _, _, hhides.2 hfrozen, hplace, Bool.eq_false_of_not_eq_true hno⟩
    have hfinite' : Scalar.isFinite (j'.get [i, c]) = true := by
      by_contra hno
      exact hfine' ⟨htangent, _, _, hhides.2 hfrozen, hplace', Bool.eq_false_of_not_eq_true hno⟩
    exact .inr ⟨Binary64.mul_isZero hfinite hzero, Binary64.mul_isZero hfinite' hzero⟩
  · have hsame := hseen.data _ fun hhidden => hfrozen (hhides.1 hhidden)
    rw [hplace, hplace'] at hsame
    rw [Option.some.inj hsame]
    exact .inl rfl

/-- **A hidden entry that is not finite** leaves an entry of the product that is not a number. -/
theorem exists_get_matmul_isNaN (hm : space.manifold = some m) (h : m.Masks n r step)
    (hj : j.shape = [rows, n]) (hspoilt : space.Spoilt j.data) :
    ∃ i < rows, 0 < r ∧ Scalar.isNaN ((j.matmul rows n r step).get [i, 0]) = true := by
  obtain ⟨htangent, place, x, hhidden, hplace, hx⟩ := hspoilt
  have hr : 0 < r := by
    simp only [tangentSize, hm, h.tangentSize_eq, Setting.count, ne_eq,
      Setting.whole.injEq] at htangent
    omega
  have hfrozen := (hides_iff hm h.ambientSize_eq place).1 hhidden
  obtain ⟨hlt, -⟩ := List.getElem?_eq_some_iff.1 hplace
  obtain ⟨i, hi, c, hc, rfl⟩ := exists_row_col (length_data_matrix hj ▸ hlt)
  rw [place_mod hc] at hfrozen
  obtain rfl := Option.some.inj ((getElem?_place hj hi hc).symm.trans hplace)
  refine ⟨i, hi, hr, ?_⟩
  rw [Tensor.matmul_eq, Tensor.get_matrix _ hi hr]
  exact Binary64.dot_isNaN hc (Binary64.mul_isNaN hx (h.zero c hc hfrozen 0 hr))

end BlockSpace

end JacobianAudit
