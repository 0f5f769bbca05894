/-
**Arrays of declared shapes.**

Extents are declared as settings. An array of a declared shape exists only if there are not too
many extents, every one is an integer, none is negative, and the array is not too large.

Main definitions:

* `JacobianAudit.Shape.allocate` — a shape of which there is an array;
* `JacobianAudit.Shape.ofSettings` — the shape that is declared;
* `JacobianAudit.Tensor.zeros` — an array of zeros of a declared shape.

Main results:

* `JacobianAudit.Shape.allocate_eq_ok_iff` — of which shapes there are arrays;
* `JacobianAudit.Shape.ofSettings_count` — a shape of which there is an array can be declared.
-/

import JacobianAudit.Setting
import JacobianAudit.Tensor.Basic

set_option autoImplicit false

namespace JacobianAudit

namespace Shape

/-- The shape, if there is an array of it: one whose extents can be addressed and whose entries can
be held. -/
def allocate (s : Shape) : Except Fault Shape :=
  if s.fits then if s.size ≤ memory then .ok s else .error .memory
  else .error (.malformed .tooLarge)

theorem allocate_eq_ok_iff {s t : Shape} :
    s.allocate = .ok t ↔ s = t ∧ s.fits = true ∧ s.size ≤ memory := by
  unfold allocate
  by_cases hf : s.fits = true
  · by_cases hm : s.size ≤ memory
    · rw [if_pos hf, if_pos hm]
      exact ⟨fun h => ⟨Except.ok.inj h, hf, hm⟩, fun h => congrArg Except.ok h.1⟩
    · rw [if_pos hf, if_neg hm]
      exact ⟨fun h => (nomatch h), fun h => absurd h.2.2 hm⟩
  · rw [if_neg hf]
    exact ⟨fun h => (nomatch h), fun h => absurd h.2.1 hf⟩

/-- The shape with extents as they are declared. -/
def ofSettings (extents : List Setting) : Except Fault Shape := do
  if maxRank < extents.length then throw (.malformed .tooLarge)
  else
    let extents ← extents.mapM Setting.extent
    if extents.all (0 ≤ ·) then allocate (extents.map Int.toNat)
    else throw (.malformed .negativeExtent)

theorem fitsWord_of_lt {n : Nat} (h : n < capacity) : Setting.fitsWord n = true := by
  have hc : capacity = 1152921504606846976 := rfl
  have ht : (Decimal.twoTo 63 : Int) = 9223372036854775808 := by decide +kernel
  simp only [Setting.fitsWord, ht, Bool.and_eq_true, decide_eq_true_eq]
  omega

theorem mapM_extent_count (s : Shape) (h : ∀ n ∈ s, n < capacity) :
    (s.map Setting.count).mapM Setting.extent = .ok (s.map Int.ofNat) := by
  induction s with
  | nil => rfl
  | cons n s ih =>
    have hn := Setting.extent_whole (fitsWord_of_lt (h n List.mem_cons_self))
    simp only [List.map_cons, List.mapM_cons, ih fun m hm => h m (List.mem_cons_of_mem n hm)]
    rw [hn]
    rfl

theorem ofSettings_count {s : Shape} (hr : s.length ≤ maxRank) (hf : s.fits = true)
    (hm : s.size ≤ memory) : ofSettings (s.map Setting.count) = .ok s := by
  have hs : (s.map Int.ofNat).map Int.toNat = s := by
    rw [List.map_map]
    exact List.map_id' s
  have ha : (s.map Int.ofNat).all (0 ≤ ·) = true := by simp
  have hl : ¬maxRank < (s.map Setting.count).length := by
    rw [List.length_map]
    omega
  simp only [ofSettings, mapM_extent_count s fun n hn => lt_capacity hf hn, bind, Except.bind, ha,
    hs, hl, if_true, if_false]
  exact allocate_eq_ok_iff.2 ⟨rfl, hf, hm⟩

end Shape

/-- An array of zeros of a declared shape. -/
def Tensor.zeros {α : Type} [Scalar α] (extents : List Setting) : Except Fault (Tensor α) := do
  return .fill (← Shape.ofSettings extents) Scalar.zero

end JacobianAudit
