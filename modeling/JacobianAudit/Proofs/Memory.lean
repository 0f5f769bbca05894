/-
**Arrays that there are.**

There is an array of a shape only if its extents can be addressed and its entries can be held. A
smaller array needs less room, and what can be held can be declared and cleared.

Main definitions:

* `JacobianAudit.Shape.Held` — there is an array of a shape;
* `JacobianAudit.Manifold.room` — there is the identity matrix that a derivative is made from.

Main results:

* `JacobianAudit.Shape.Held.mono` — a smaller array needs less room;
* `JacobianAudit.zeros_eq`, `JacobianAudit.exists_zeroMatrices` — zero arrays of shapes that can be
  held;
* `JacobianAudit.tangentScales_eq` — tangent coordinates that can be gone through;
* `JacobianAudit.Record.reset_eq_ok` — a record for which there is room is cleared.
-/

import Mathlib.Data.List.Forall2
import Mathlib.Order.MinMax
import JacobianAudit.Difference.Estimate
import JacobianAudit.Probe.Record
import JacobianAudit.Proofs.Reading

set_option autoImplicit false

namespace JacobianAudit

namespace Shape

/-- There is an array of the shape. -/
def Held (s : Shape) : Prop := s.allocate = .ok s

theorem held_iff {s : Shape} : s.Held ↔ s.fits = true ∧ s.size ≤ memory := by
  simp [Held, allocate_eq_ok_iff]

instance (s : Shape) : Decidable s.Held := decidable_of_iff _ held_iff.symm

theorem size_mono {s t : Shape} (h : List.Forall₂ (· ≤ ·) s t) : s.size ≤ t.size := by
  induction h with
  | nil => exact le_rfl
  | cons hle _ ih => exact Nat.mul_le_mul hle ih

theorem fits_mono {s t : Shape} (h : List.Forall₂ (· ≤ ·) s t) (ht : t.fits = true) :
    s.fits = true := by
  have hextents : s.foldr (fun n k => max n 1 * k) 1 ≤ t.foldr (fun n k => max n 1 * k) 1 := by
    clear ht
    induction h with
    | nil => exact le_rfl
    | cons hle _ ih => exact Nat.mul_le_mul (max_le_max hle le_rfl) ih
  exact decide_eq_true (hextents.trans_lt (of_decide_eq_true ht))

/-- A smaller array needs less room. -/
theorem Held.mono {s t : Shape} (h : List.Forall₂ (· ≤ ·) s t) (ht : t.Held) : s.Held := by
  obtain ⟨hfits, hmemory⟩ := held_iff.1 ht
  exact held_iff.2 ⟨fits_mono h hfits, (size_mono h).trans hmemory⟩

/-- Where there is a vector there is a matrix without columns. -/
theorem Held.without_columns {n : ℕ} (h : Held [n]) : Held [n, 0] := by
  obtain ⟨hfits, -⟩ := held_iff.1 h
  refine held_iff.2 ⟨?_, Nat.zero_le _⟩
  simpa [fits] using hfits

/-- A shape of which there is an array can be declared. -/
theorem Held.ofSettings_eq {s : Shape} (h : s.Held) (hr : s.length ≤ maxRank) :
    ofSettings (s.map Setting.count) = .ok s :=
  ofSettings_count hr (held_iff.1 h).1 (held_iff.1 h).2

/-- The extent of an array is a number that can be addressed. -/
theorem Held.extent_eq {s : Shape} (h : s.Held) {n : ℕ} (hn : n ∈ s) :
    (Setting.count n).extent = .ok (n : ℤ) :=
  Setting.extent_whole (fitsWord_of_lt (lt_capacity (held_iff.1 h).1 hn))

end Shape

namespace Manifold

variable {σ α : Type}

/-- Room for the identity matrix that the derivative of the step is made from, of a Euclidean step
and of one that holds entries constant; the others need none. -/
def room : Manifold σ α → Except Fault Unit
  | euclidean space => (Shape.allocate [space.size, space.size]).map fun _ => ()
  | subset space => (Shape.allocate [space.size, space.size]).map fun _ => ()
  | _ => .ok ()

variable [Scalar α]

theorem plusJacobian_euclidean (space : Euclidean) (x : Supplied α) :
    (euclidean space : Manifold σ α).plusJacobian x = Action.ofExcept
      ((euclidean space : Manifold σ α).room.map fun _ => .array (.identity space.size)) := by
  refine congrArg Action.ofExcept ?_
  rw [Euclidean.plusJacobian, room]
  cases Shape.allocate [space.size, space.size] <;> rfl

theorem plusJacobian_subset (space : Subset) (x : Supplied α) :
    (subset space : Manifold σ α).plusJacobian x = Action.ofExcept
      ((subset space : Manifold σ α).room.map fun _ => .array space.freeColumns) := by
  refine congrArg Action.ofExcept ?_
  rw [Subset.plusJacobian, room]
  cases Shape.allocate [space.size, space.size] <;> rfl

end Manifold

variable {α : Type} [Scalar α]

/-! ### Zero arrays -/

theorem zeros_eq {s : Shape} (h : s.Held) (hr : s.length ≤ Shape.maxRank) :
    Tensor.zeros (s.map Setting.count) = .ok (Tensor.fill s (Scalar.zero : α)) := by
  unfold Tensor.zeros
  rw [h.ofSettings_eq hr]
  rfl

/-- Zero matrices of shapes that can be held. -/
theorem exists_zeroMatrices {rows : ℕ} {cols : List Setting}
    (h : ∀ s ∈ cols, ∃ n : ℕ, s = .count n ∧ Shape.Held [rows, n]) :
    ∃ ts : List (Tensor α), Record.zeroMatrices (.count rows) cols = .ok ts := by
  have hzeros : ∀ s ∈ cols, ∃ t : Tensor α, Tensor.zeros [.count rows, s] = .ok t := by
    intro s hs
    obtain ⟨n, rfl, hheld⟩ := h s hs
    have hrank : [rows, n].length ≤ Shape.maxRank := show 2 ≤ 64 from by decide
    rw [show [Setting.count rows, Setting.count n] = [rows, n].map Setting.count from rfl,
      zeros_eq hheld hrank]
    exact ⟨_, rfl⟩
  obtain ⟨ts, hts⟩ := exists_forall₂ hzeros
  exact ⟨ts, Except.mapM_eq_ok_iff.2 hts⟩

/-- The tangent coordinates of a manifold can be gone through if there is a vector so long. All of
them have one scale. -/
theorem tangentScales_eq {σ : Type} {m : Manifold σ α} {block : List α} {width : ℕ}
    (ha : m.ambientSize = .count block.length) (ht : m.tangentSize = .count width)
    (hheld : Shape.Held [width]) (shown : String) :
    tangentScales shown block (some m) =
      .ok (some (List.replicate width (Scalar.largest Scalar.zero (block.map Scalar.abs)))) := by
  have hsize : m.ambientSize.equals (.count block.length) = true := by
    rw [ha, Setting.equals_whole, decide_eq_true rfl]
  have hshape : Shape.ofSettings (Setting.count width).extents = .ok [width] :=
    hheld.ofSettings_eq (show 1 ≤ 64 from by decide)
  unfold tangentScales
  simp only [hsize, if_true, ht, hshape]
  simp [Setting.isSequence, bind, Except.bind, pure, Except.pure]

/-- A record is cleared if there are arrays of all shapes. -/
theorem Record.reset_eq_ok {rows : ℕ} {sizes tangentSizes : List Setting} (r : Record α)
    (hrows : Shape.Held [rows]) (hs : ∀ s ∈ sizes, ∃ n : ℕ, s = .count n ∧ Shape.Held [rows, n])
    (ht : ∀ s ∈ tangentSizes, ∃ n : ℕ, s = .count n ∧ Shape.Held [rows, n]) :
    (r.reset (.count rows) sizes tangentSizes).1 = .ok () := by
  have hrank : [rows].length ≤ Shape.maxRank := show 1 ≤ 64 from by decide
  have hresiduals : Tensor.zeros (Setting.count rows).extents =
      .ok (Tensor.fill [rows] (Scalar.zero : α)) := by
    rw [show (Setting.count rows).extents = [rows].map Setting.count from rfl,
      zeros_eq hrows hrank]
  obtain ⟨ambient, hambient⟩ := exists_zeroMatrices (α := α) hs
  obtain ⟨tangent, htangent⟩ := exists_zeroMatrices (α := α) ht
  unfold reset
  simp only [hresiduals, hambient, htangent]

end JacobianAudit
