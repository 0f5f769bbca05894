/-
**What the library's manifolds answer.**

The manifolds that come with the library answer at every point and for every tangent vector of the
declared sizes: a step leads to a point, and its derivative is a matrix with a row for each entry
and a column for each tangent coordinate. So a Jacobian of the right shape can always be projected.

Main definitions:

* `JacobianAudit.Manifold.Total` — a manifold that answers everywhere, with arrays of its sizes.

Main results:

* `JacobianAudit.Manifold.total_of_library` — **the library's manifolds answer everywhere**, as far
  as there are arrays of the sizes that are asked for;
* `JacobianAudit.project_promises` — projecting along such a manifold meets no fault.
-/

import JacobianAudit.Projection
import JacobianAudit.Proofs.Contracts
import JacobianAudit.Proofs.Memory

set_option autoImplicit false

namespace JacobianAudit

variable {σ α : Type} [Scalar α]

/-! ### Steps -/

theorem length_data_vector_add {xs delta : List α} (h : delta.length = xs.length) :
    ∃ t, (Tensor.vector xs).zipWith (· + ·) (Tensor.vector delta) = .ok t ∧
      t.data.length = xs.length := by
  have hshape : (Tensor.vector xs).shape = (Tensor.vector delta).shape := by simp [h]
  refine ⟨_, Tensor.zipWith_of_shape_eq _ hshape, ?_⟩
  simp [h]

theorem Euclidean.exists_plus {xs delta : List α} (h : delta.length = xs.length) :
    ∃ t, Euclidean.plus (.vector xs) (.vector delta) = .ok t ∧ t.data.length = xs.length :=
  length_data_vector_add h

theorem Subset.exists_plus (space : Subset) {xs delta : List α} (hxs : xs.length = space.size)
    (hl : delta.length = space.free.length) :
    ∃ t, space.plus (.vector xs) (.vector delta) = .ok t ∧ t.data.length = xs.length := by
  have hfree : space.free.all (· < xs.length) = true := by
    refine List.all_eq_true.2 fun c hc => ?_
    have hlt := List.mem_range.1 (List.mem_filter.1 hc).1
    exact decide_eq_true (hxs ▸ hlt)
  have hstretch : Shape.broadcast? [delta.length] [space.free.length] =
      some [space.free.length] := by
    rw [hl]
    exact Shape.broadcast?_self _
  unfold Subset.plus
  simp only [Supplied.vector, Supplied.read_array, Tensor.shape_vector, hfree, hstretch, bind,
    Except.bind, pure, Except.pure, if_true]
  refine ⟨_, rfl, ?_⟩
  simp [Tensor.tabulate, Shape.length_indices]

theorem LinearMap.exists_plus (map : LinearMap α) {xs delta : List α}
    (hxs : xs.length = map.rows) (hl : delta.length = map.cols) :
    ∃ t, map.plus (.vector xs) (.vector delta) = .ok t ∧ t.data.length = xs.length := by
  unfold LinearMap.plus Tensor.apply
  simp only [Supplied.vector, Supplied.read_array, Tensor.shape_vector, List.reverse_singleton, hl,
    bind, Except.bind, if_true]
  exact length_data_vector_add (by simp [hxs])

/-- The product of two vectors of four entries each is such a vector. -/
theorem Quaternion.exists_product {p q : List α} (hp : p.length = 4) (hq : q.length = 4) :
    ∃ t, Quaternion.product (.vector p) (.vector q) = .ok t ∧ t.data.length = 4 := by
  have hinner : Shape.broadcast? [] [] = some [] := rfl
  unfold Quaternion.product
  simp only [Tensor.shape_vector, hp, hq, hinner]
  exact ⟨_, rfl, by simp [Tensor.tabulate, Shape.length_indices]⟩

theorem Quaternion.exists_plus {xs delta : List α} (hxs : xs.length = 4)
    (hl : delta.length = 3) :
    ∃ t, Quaternion.plus (.vector xs) (.vector delta) = .ok t ∧ t.data.length = xs.length := by
  unfold Quaternion.plus
  simp only [Supplied.vector, Supplied.read_array, bind, Except.bind]
  split
  · exact ⟨_, rfl, rfl⟩
  · -- the tangent vector is a rotation vector as it is
    have hrotation : rotationVector (Tensor.vector delta) = .ok delta := by
      unfold rotationVector
      simp only [Tensor.shape_vector, Tensor.data_vector, hl]
      rfl
    have hexponential : (exponential (norm delta) delta).length = 4 := by
      simp [exponential, hl]
    obtain ⟨t, ht, hlength⟩ := Quaternion.exists_product hexponential hxs
    rw [hrotation]
    exact ⟨t, ht, hlength.trans hxs.symm⟩

/-- The derivative of a step from a point of four entries. -/
theorem Quaternion.exists_plusJacobian {xs : List α} (hxs : xs.length = 4) :
    ∃ t, Quaternion.plusJacobian (.vector xs) = .ok t ∧ t.shape = [4, 3] := by
  unfold Quaternion.plusJacobian
  simp only [Supplied.vector, Supplied.read_array, Tensor.shape_vector, hxs, bind, Except.bind,
    if_true]
  exact ⟨_, rfl, rfl⟩

/-! ### Manifolds that answer everywhere -/

namespace Manifold

/-- The manifold answers at every point with `height` entries and for every tangent vector with
`width` entries, with arrays of these sizes. -/
structure Total (m : Manifold σ α) (height width : ℕ) : Prop where
  ambientSize_eq : m.ambientSize = .count height
  tangentSize_eq : m.tangentSize = .count width
  width_le : width ≤ height
  plus : ∀ xs delta : List α, xs.length = height → delta.length = width →
    (m.plus (.vector xs) (.vector delta)).Promises
      (fun reply => ∃ t, reply = .array t ∧ t.data.length = height) fun _ => False
  plusJacobian : ∀ xs : List α, xs.length = height →
    (m.plusJacobian (.vector xs)).Promises
      (fun reply => ∃ t, reply = .array t ∧ t.shape = [height, width]) fun _ => False

omit [Scalar α] in
/-- An answer that is known beforehand. -/
theorem promises_of_exists {answer : Except Fault (Tensor α)} {q : Tensor α → Prop}
    (h : ∃ t, answer = .ok t ∧ q t) :
    (Action.ofExcept (answer.map .array) : Action σ (Supplied α)).Promises
      (fun reply => ∃ t, reply = .array t ∧ q t) fun _ => False := by
  obtain ⟨t, rfl, ht⟩ := h
  exact .pure ⟨t, rfl, ht⟩

/-- **The library's manifolds answer everywhere**, if there is room for the identity matrix that
some derivatives are made from. -/
theorem total_of_library {m : Manifold σ α} (h : ∀ custom, m ≠ .custom custom)
    (hroom : m.room = .ok ()) : ∃ height width, m.Total height width := by
  cases m with
  | euclidean space =>
      refine ⟨space.size, space.size, rfl, rfl, le_rfl, ?_, ?_⟩
      · intro xs delta hxs hl
        rw [← hxs]
        exact promises_of_exists (Euclidean.exists_plus (hl.trans hxs.symm))
      · intro xs _
        rw [plusJacobian_euclidean, hroom]
        exact .pure ⟨.identity space.size, rfl, rfl⟩
  | subset space =>
      refine ⟨space.size, space.free.length, rfl, rfl, ?_, ?_, ?_⟩
      · have hfilter := List.length_filter_le (fun i => !space.constant.contains i)
          (List.range space.size)
        rwa [List.length_range] at hfilter
      · intro xs delta hxs hl
        rw [← hxs]
        exact promises_of_exists (Subset.exists_plus space hxs hl)
      · intro xs _
        rw [plusJacobian_subset, hroom]
        exact .pure ⟨space.freeColumns, rfl, by simp [Subset.freeColumns]⟩
  | quaternion =>
      refine ⟨4, 3, rfl, rfl, by omega, ?_, ?_⟩
      · intro xs delta hxs hl
        rw [← hxs]
        exact promises_of_exists (Quaternion.exists_plus hxs hl)
      · intro xs hxs
        exact promises_of_exists (Quaternion.exists_plusJacobian hxs)
  | linear map =>
      refine ⟨map.rows, map.cols, rfl, rfl, map.cols_le, ?_, ?_⟩
      · intro xs delta hxs hl
        rw [← hxs]
        exact promises_of_exists (LinearMap.exists_plus map hxs hl)
      · intro xs _
        exact .pure ⟨map.matrix, rfl, map.shape_eq⟩
  | custom custom => exact absurd rfl (h custom)

end Manifold

/-! ### Projections -/

/-- The derivative of a step is read without a fault. -/
theorem stepJacobian_promises {m : Manifold σ α} {height width : ℕ} (hm : m.Total height width)
    {xs : List α} (hxs : xs.length = height) :
    (stepJacobian m (.vector xs)).Promises (fun _ => True) fun _ => False := by
  refine .ofExcept_bind rfl ((hm.plusJacobian xs hxs).bind ?_)
  rintro reply ⟨t, rfl, ht⟩
  have hread : readMatrix (.array t) m.ambientSize m.tangentSize "plus_jacobian" = .ok t := by
    rw [hm.ambientSize_eq, hm.tangentSize_eq]
    exact readMatrix_of_shape ht _
  exact .ofExcept_ok hread trivial

/-- **Projecting a Jacobian meets no fault** if it has a column for each entry of the block. -/
theorem project_promises {manifold : Option (Manifold σ α)} {xs : List α} {rows : ℕ}
    (hm : ∀ m ∈ manifold, ∃ width, m.Total xs.length width) {jacobian : Tensor α}
    (hj : jacobian.shape = [rows, xs.length]) :
    (project (.array jacobian) manifold (.vector xs)).Promises (fun _ => True)
      fun _ => False := by
  refine .ofExcept_bind rfl ?_
  simp only [hj]
  cases manifold with
  | none => exact .pure trivial
  | some m =>
      obtain ⟨width, htotal⟩ := hm m rfl
      have hsize : m.ambientSize.equals (.count xs.length) = true := by
        rw [htotal.ambientSize_eq, Setting.equals_whole, decide_eq_true rfl]
      simp only [hsize, if_true]
      exact (stepJacobian_promises htotal rfl).bind fun step _ => .pure trivial

end JacobianAudit
