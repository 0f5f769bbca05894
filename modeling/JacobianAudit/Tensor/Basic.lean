/-
**Rectangular arrays.**

An array is a shape together with its entries in row-major order, as many as the shape has room
for. A new array is written down by giving its shape and the entry at every index; an entry is
read by its index. Elementwise operations accept operands of different shapes if these can be
stretched to a common one.

Main definitions:

* `JacobianAudit.Tensor` — arrays;
* `JacobianAudit.Tensor.tabulate`, `JacobianAudit.Tensor.get` — writing and reading by index;
* `JacobianAudit.Tensor.zipWith` — elementwise operations;
* `JacobianAudit.Tensor.stack` — arrays of one shape along a new outermost axis.

Main results:

* `JacobianAudit.Shape.offset_lt` — an index within the shape leads to an entry;
* `JacobianAudit.Tensor.get_tabulate` — what was written at an index is read there;
* `JacobianAudit.Tensor.zipWith_of_shape_eq` — on operands of one shape nothing is stretched.
-/

import JacobianAudit.Scalar

set_option autoImplicit false

namespace JacobianAudit

namespace Shape

/-- All indices into an array of this shape, in row-major order. -/
def indices : Shape → List (List Nat)
  | [] => [[]]
  | n :: rest => (List.range n).flatMap fun i => (indices rest).map (i :: ·)

/-- The place of an index in row-major order. -/
def offset : Shape → List Nat → Nat
  | _ :: rest, i :: index => i * size rest + offset rest index
  | _, _ => 0

/-- The index has one coordinate per axis, each below the extent. -/
def Contains : Shape → List Nat → Prop
  | [], [] => True
  | n :: rest, i :: index => i < n ∧ Contains rest index
  | _, _ => False

theorem length_indices (s : Shape) : s.indices.length = s.size := by
  induction s with
  | nil => rfl
  | cons n rest ih =>
    simp only [indices, List.length_flatMap, List.length_map, ih, size_cons, List.map_const',
      List.length_range, List.sum_replicate_nat]

theorem offset_lt {s : Shape} {index : List Nat} (h : s.Contains index) :
    s.offset index < s.size := by
  induction s generalizing index with
  | nil => cases index <;> simp_all [offset, Contains]
  | cons n rest ih =>
    cases index with
    | nil => simp [Contains] at h
    | cons i index =>
      have hi := h.1
      have hr := ih h.2
      have : (i + 1) * size rest ≤ n * size rest := Nat.mul_le_mul_right _ hi
      rw [Nat.add_mul] at this
      simp only [offset, size_cons]
      omega

end Shape

/-- A rectangular array: a shape and its entries in row-major order. -/
structure Tensor (α : Type) where
  shape : Shape
  data : List α
  size_eq : data.length = shape.size

namespace Tensor

variable {α : Type}

/-- A number on its own. -/
def scalar (x : α) : Tensor α := ⟨[], [x], rfl⟩

/-- A vector. -/
def vector (xs : List α) : Tensor α := ⟨[xs.length], xs, by simp⟩

/-- The array of a shape with a given entry at every index. -/
def tabulate (shape : Shape) (f : List Nat → α) : Tensor α :=
  ⟨shape, shape.indices.map f, by simp [Shape.length_indices]⟩

/-- The matrix with a given entry at every row and column. -/
def matrix (rows cols : Nat) (f : Nat → Nat → α) : Tensor α :=
  tabulate [rows, cols] fun
    | [i, j] => f i j
    | _ => f 0 0

/-- The array with one entry everywhere. -/
def fill (shape : Shape) (x : α) : Tensor α :=
  ⟨shape, List.replicate shape.size x, List.length_replicate⟩

/-- The same entries in another shape of the same size. -/
def reshape (t : Tensor α) (shape : Shape) (h : t.data.length = shape.size) : Tensor α :=
  ⟨shape, t.data, h⟩

/-- The number of columns of a matrix. -/
def columns (t : Tensor α) : Nat := t.shape.getLastD 1

/-- A function applied to every entry. -/
def map (f : α → α) (t : Tensor α) : Tensor α := ⟨t.shape, t.data.map f, by simp [t.size_eq]⟩

@[simp] theorem shape_vector (xs : List α) : (vector xs).shape = [xs.length] := rfl

@[simp] theorem data_vector (xs : List α) : (vector xs).data = xs := rfl

@[simp] theorem shape_tabulate (s : Shape) (f : List Nat → α) : (tabulate s f).shape = s := rfl

@[simp] theorem shape_matrix (r c : Nat) (f : Nat → Nat → α) :
    (matrix r c f).shape = [r, c] := rfl

@[simp] theorem shape_map (f : α → α) (t : Tensor α) : (t.map f).shape = t.shape := rfl

theorem length_zipWith (f : α → α → α) {a b : Tensor α} (h : a.shape = b.shape) :
    (List.zipWith f a.data b.data).length = a.shape.size := by
  simp [a.size_eq, b.size_eq, h]

/-! ### Reading an entry -/

section Get

variable [Scalar α]

/-- The entry at an index; outside the array there are no numbers. -/
def get (t : Tensor α) (index : List Nat) : α :=
  (t.data[t.shape.offset index]?).getD Scalar.nan

/-- The entry at an index of an array of some shape, whose entries are given in the form that is
fastest to read. -/
def entryAt (shape : Shape) (entries : Array α) (index : List Nat) : α :=
  (entries[shape.offset index]?).getD Scalar.nan

@[simp] theorem entryAt_toArray (t : Tensor α) (index : List Nat) :
    entryAt t.shape t.data.toArray index = t.get index := by
  simp [entryAt, get]

theorem getElem?_flatMap_range {β : Type} (g : Nat → List β) (m : Nat)
    (hg : ∀ i, (g i).length = m) (n i j : Nat) (hi : i < n) (hj : j < m) :
    ((List.range n).flatMap g)[i * m + j]? = (g i)[j]? := by
  induction n with
  | zero => omega
  | succ n ih =>
    have hlen : ((List.range n).flatMap g).length = n * m := by
      clear ih hi
      induction n with
      | zero => simp
      | succ n ih => simp [List.range_succ, hg, ih, Nat.add_mul]
    rw [List.range_succ, List.flatMap_append]
    by_cases h : i < n
    · have : i * m + j < n * m := by
        have : (i + 1) * m ≤ n * m := Nat.mul_le_mul_right _ h
        rw [Nat.add_mul] at this
        omega
      rw [List.getElem?_append_left (by omega), ih h]
    · obtain rfl : i = n := by omega
      rw [List.getElem?_append_right (by omega), hlen]
      simp

theorem getElem?_indices {s : Shape} {index : List Nat} (h : s.Contains index) :
    s.indices[s.offset index]? = some index := by
  induction s generalizing index with
  | nil => cases index <;> simp_all [Shape.Contains, Shape.indices, Shape.offset]
  | cons n rest ih =>
    cases index with
    | nil => simp [Shape.Contains] at h
    | cons i index =>
      have hlt := Shape.offset_lt h.2
      simp only [Shape.indices, Shape.offset]
      rw [getElem?_flatMap_range (fun i => (Shape.indices rest).map (i :: ·)) (Shape.size rest)
        (by simp [Shape.length_indices]) n i _ h.1 hlt]
      simp [ih h.2]

/-- What was written at an index is read there. -/
theorem get_tabulate {s : Shape} (f : List Nat → α) {index : List Nat} (h : s.Contains index) :
    (tabulate s f).get index = f index := by
  simp [get, tabulate, getElem?_indices h]

theorem get_matrix {r c : Nat} (f : Nat → Nat → α) {i j : Nat} (hi : i < r) (hj : j < c) :
    (matrix r c f).get [i, j] = f i j :=
  get_tabulate _ (show Shape.Contains [r, c] [i, j] from ⟨hi, hj, trivial⟩)

/-! ### Elementwise operations -/

/-- The index in an array of some shape that leads to what stands at an index after the array was
stretched. -/
def unstretched (shape : Shape) (index : List Nat) : List Nat :=
  ((index.drop (index.length - shape.length)).zip shape).map fun p => if p.2 = 1 then 0 else p.1

/-- An operation on the entries at equal indices, after both arrays were stretched to their common
shape. -/
def zipWith (f : α → α → α) (a b : Tensor α) : Except Fault (Tensor α) :=
  if h : a.shape = b.shape then
    .ok ⟨a.shape, List.zipWith f a.data b.data, length_zipWith f h⟩
  else
    match Shape.broadcast? a.shape b.shape with
    | some shape =>
      let u := a.data.toArray
      let v := b.data.toArray
      .ok (tabulate shape fun index =>
        f (entryAt a.shape u (unstretched a.shape index))
          (entryAt b.shape v (unstretched b.shape index)))
    | none => .error (.malformed .unbroadcastable)

theorem zipWith_of_shape_eq (f : α → α → α) {a b : Tensor α} (h : a.shape = b.shape) :
    a.zipWith f b = .ok ⟨a.shape, List.zipWith f a.data b.data, length_zipWith f h⟩ := by
  simp [zipWith, h]

end Get

/-! ### The outermost axis -/

/-- Arrays of one shape, put side by side along a new outermost axis. -/
def stack (shape : Shape) (parts : List (Tensor α)) (h : ∀ t ∈ parts, t.shape = shape) :
    Tensor α :=
  ⟨parts.length :: shape, parts.flatMap data, by
    induction parts with
    | nil => simp
    | cons t rest ih =>
      have ht := h t (by simp)
      have hr := ih fun u hu => h u (by simp [hu])
      simp only [Shape.size_cons] at hr
      simp only [List.flatMap_cons, List.length_append, hr, t.size_eq, ht, Shape.size_cons,
        List.length_cons, Nat.add_mul]
      omega⟩

/-- Arrays along a new outermost axis, if they all have the shape of the first one. -/
def stack? : List (Tensor α) → Option (Tensor α)
  | [] => some ⟨[0], [], by simp⟩
  | t :: rest =>
    if h : ∀ u ∈ t :: rest, u.shape = t.shape then some (stack t.shape (t :: rest) h) else none

end Tensor

end JacobianAudit
