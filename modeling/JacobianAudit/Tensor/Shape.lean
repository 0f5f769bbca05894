/-
**Shapes.**

The shape of an array is the list of its extents, the outermost first. This module holds their
size, how large arrays may be, the rule by which two shapes are stretched to a common one, and
their text in messages.

Main definitions:

* `JacobianAudit.Shape.size` — how many entries an array of this shape has;
* `JacobianAudit.Shape.maxRank`, `JacobianAudit.Shape.fits`, `JacobianAudit.Shape.memory` — how many
  axes, how large extents and how many entries an array may have;
* `JacobianAudit.Shape.broadcast?` — the common shape of two operands;
* `JacobianAudit.Shape.text` — the shape as a tuple.

Main results:

* `JacobianAudit.Shape.broadcast?_self` — operands of one shape keep it.
-/

set_option autoImplicit false

namespace JacobianAudit

/-- The extents of an array, the outermost first. A number on its own has none. -/
abbrev Shape := List Nat

namespace Shape

/-- The number of entries of an array of this shape. -/
def size : Shape → Nat
  | [] => 1
  | n :: rest => n * size rest

@[simp] theorem size_nil : size [] = 1 := rfl

@[simp] theorem size_cons (n : Nat) (s : Shape) : size (n :: s) = n * size s := rfl

/-! ### Limits -/

/-- An array has at most so many axes. -/
def maxRank : Nat := 64

/-- The extents of an array, those aside that are zero, multiply to less than this: entries of
eight bytes each are addressed with 63 bits. -/
def capacity : Nat := 1152921504606846976

/-- An array may have these extents. -/
def fits (s : Shape) : Bool := s.foldr (fun n k => max n 1 * k) 1 < capacity

/-- No array is made with more entries than this. -/
def memory : Nat := 1073741824

theorem le_foldr_max (s : Shape) :
    0 < s.foldr (fun n k => max n 1 * k) 1 ∧ ∀ n ∈ s, n ≤ s.foldr (fun n k => max n 1 * k) 1 := by
  induction s with
  | nil => simp
  | cons m s ih =>
    obtain ⟨hpos, hle⟩ := ih
    have hm : 0 < max m 1 := by omega
    refine ⟨Nat.mul_pos hm hpos, fun n hn => ?_⟩
    rcases List.mem_cons.1 hn with rfl | hn
    · exact Nat.le_trans (Nat.le_max_left n 1) (Nat.le_mul_of_pos_right _ hpos)
    · exact Nat.le_trans (hle n hn) (Nat.le_mul_of_pos_left _ hm)

theorem lt_capacity {s : Shape} (h : s.fits = true) {n : Nat} (hn : n ∈ s) : n < capacity :=
  Nat.lt_of_le_of_lt ((le_foldr_max s).2 n hn) (of_decide_eq_true h)

example : fits [0, 1152921504606846975] = true ∧ fits [0, 1152921504606846976] = false := by
  decide

/-! ### Stretching to a common shape -/

/-- The common extent of two axes: equal, or one of them is stretched from one. -/
def joinExtent? (m n : Nat) : Option Nat :=
  if m = n then some m else if m = 1 then some n else if n = 1 then some m else none

/-- The common shape of two shapes whose innermost axes are listed first. -/
def joinReversed? : Shape → Shape → Option Shape
  | [], t => some t
  | m :: s, [] => some (m :: s)
  | m :: s, n :: t => do some ((← joinExtent? m n) :: (← joinReversed? s t))

/-- The common shape of two operands: the shapes are aligned at the innermost axis, and an axis
that is missing or has extent one is repeated. -/
def broadcast? (s t : Shape) : Option Shape :=
  (joinReversed? s.reverse t.reverse).map List.reverse

theorem joinReversed?_self (s : Shape) : joinReversed? s s = some s := by
  induction s with
  | nil => rfl
  | cons n s ih => simp [joinReversed?, joinExtent?, ih]

theorem broadcast?_self (s : Shape) : broadcast? s s = some s := by
  simp [broadcast?, joinReversed?_self]

/-! ### Text -/

/-- Numbers, given as they are shown, as a tuple: in parentheses, with a comma behind a single
one. -/
def tuple (items : List String) : String :=
  match items with
  | [n] => "(" ++ n ++ ",)"
  | _ => "(" ++ ", ".intercalate items ++ ")"

/-- The shape as it stands in a message. -/
def text (s : Shape) : String := tuple (s.map toString)

example : text [] = "()" ∧ text [3] = "(3,)" ∧ text [2, 0] = "(2, 0)" := by decide +kernel

end Shape

end JacobianAudit
