/-
**Holding entries constant.**

Of a parameter block's entries some are held constant; the tangent space has one coordinate for
each of the others, in increasing order. A step adds to these entries and leaves the constant ones
alone.

Main definitions:

* `JacobianAudit.Subset` — a size and the entries held constant;
* `JacobianAudit.Subset.free` — the entries that are not;
* `JacobianAudit.Subset.plus`, `JacobianAudit.Subset.plusJacobian` — the step and its derivative;
* `JacobianAudit.Subset.ofSettings` — what is accepted.
-/

import JacobianAudit.Tensor.Declared
import JacobianAudit.Tensor.Nested

set_option autoImplicit false

namespace JacobianAudit

/-- A block of a positive size and the entries of it that are held constant, in increasing
order. -/
structure Subset where
  size : Nat
  constant : List Nat
  size_pos : 0 < size
  constant_lt : ∀ c ∈ constant, c < size
  constant_sorted : constant.Pairwise (· < ·)

namespace Subset

/-- The entries that are not held constant, in increasing order. -/
def free (s : Subset) : List Nat := (List.range s.size).filter fun i => !s.constant.contains i

theorem toNat_pairwise {constants : List Int} {size : Int}
    (hs : constants.Pairwise (· < ·)) (hr : ∀ c ∈ constants, 0 ≤ c ∧ c < size) :
    (constants.map Int.toNat).Pairwise (· < ·) := by
  rw [List.pairwise_map]
  refine hs.imp_of_mem ?_
  intro a b ha hb hab
  have := (hr a ha).1
  omega

/-- A subset as settings write it: a positive size, and constant entries that are pairwise
different and lie within the block. -/
def ofSettings (size : Setting) (constants : List Setting) : Except Fault Subset := do
  let n ← size.toInt
  if hn : 0 < n then
    let requested ← constants.mapM Setting.toInt
    let sorted := requested.mergeSort
    if hs : sorted.Pairwise (· < ·) then
      if hr : ∀ c ∈ sorted, 0 ≤ c ∧ c < n then
        return {
          size := n.toNat
          constant := sorted.map Int.toNat
          size_pos := Setting.toNat_pos hn
          constant_lt := by
            intro c hc
            obtain ⟨i, hi, rfl⟩ := List.mem_map.1 hc
            have := hr i hi
            omega
          constant_sorted := toNat_pairwise hs hr }
      else throw (.argument (.constantsOutside n sorted))
    else throw (.argument .repeatedConstants)
  else throw (.argument (.sizeNotPositive (toString n)))

variable {α : Type} [Scalar α]

/-- The step: the tangent vector is added to the free entries, along the outermost axis. It may be
stretched to them, but not the other way round. -/
def plus (s : Subset) (x delta : Supplied α) : Except Fault (Tensor α) := do
  let x ← x.read
  match x.shape with
  | [] => throw .entryIndex
  | n :: rest =>
    let free := s.free
    if free.all (· < n) then
      let delta ← delta.read
      if Shape.broadcast? delta.shape (free.length :: rest) = some (free.length :: rest) then
        let u := x.data.toArray
        let v := delta.data.toArray
        return .tabulate x.shape fun
          | i :: index =>
            let entry := Tensor.entryAt x.shape u (i :: index)
            match free.idxOf? i with
            | some k =>
              entry + Tensor.entryAt delta.shape v (Tensor.unstretched delta.shape (k :: index))
            | none => entry
          | [] => Scalar.nan
      else throw (.malformed .unbroadcastable)
    else throw .entryIndex

/-- The identity matrix without the constant columns. -/
def freeColumns (s : Subset) : Tensor α :=
  let free := s.free.toArray
  .matrix s.size free.size fun i k => if free[k]? = some i then Scalar.one else Scalar.zero

/-- The derivative of the step: the free columns, if there is an identity matrix so large to take
them from. -/
def plusJacobian (s : Subset) : Except Fault (Tensor α) :=
  (Shape.allocate [s.size, s.size]).map fun _ => s.freeColumns

end Subset

end JacobianAudit
