/-
**Loosely typed settings.**

Settings and declared sizes are accepted in whatever form they were written: a count may be an
integer, a numeral in a text, a Boolean, a number with a fraction, a list, or nothing at all. A
setting is kept as written, since that is how messages show it. Where an integer is needed it is
either turned into one, or has to be one; and settings are compared as the numbers that they are.

Main definitions:

* `JacobianAudit.Setting` — a value as it was written;
* `JacobianAudit.Setting.toInt` — the integer it denotes;
* `JacobianAudit.Setting.index`, `JacobianAudit.Setting.extent`, `JacobianAudit.Setting.place` — the
  integer it is, where an index, an extent or a number in a table is needed;
* `JacobianAudit.Setting.equals`, `JacobianAudit.Setting.within`, `JacobianAudit.Setting.times` —
  comparison and multiplication;
* `JacobianAudit.Setting.shown` — its text.

Main results:

* `JacobianAudit.Setting.equals_whole`, `JacobianAudit.Setting.within_whole` — integers are
  compared as integers.
-/

import JacobianAudit.Binary64.Rounding
import JacobianAudit.Fault
import JacobianAudit.Text.Numeral
import JacobianAudit.Text.Quoted

set_option autoImplicit false

namespace JacobianAudit

/-- A value as it was written. -/
inductive Setting where
  | absent
  | flag (value : Bool)
  | whole (value : Int)
  | real (value : Float)
  | text (value : String)
  | list (items : List Setting)
  | table (entries : List (String × Setting))
  deriving Inhabited

namespace Setting

/-- A count as a setting. -/
abbrev count (n : Nat) : Setting := whole n

/-! ### Integers -/

/-- The integer that a setting denotes. A number loses its fraction, a text has to be a numeral;
what is absent, a list or a table denotes none. -/
def toInt : Setting → Except Fault Int
  | absent => .error .notNumeric
  | list _ => .error .notNumeric
  | table _ => .error .notNumeric
  | flag value => .ok (if value then 1 else 0)
  | whole value => .ok value
  | real value =>
    match Binary64.quantity value with
    | .nan => .error (.malformed .numeral)
    | .infinite _ => .error .overflow
    | .finite negative num den => .ok (Quantity.signed negative (num / den))
  | text value =>
    match Text.Numeral.parse? value with
    | some n => .ok n
    | none => .error (.malformed .numeral)

/-- The integer that a setting is. Neither fractions nor texts are, whatever they denote. -/
def index : Setting → Except Fault Int
  | flag value => .ok (if value then 1 else 0)
  | whole value => .ok value
  | _ => .error .notNumeric

/-- The integer is one of 64 bits. -/
def fitsWord (n : Int) : Bool := -Decimal.twoTo 63 ≤ n && n < Decimal.twoTo 63

/-- The extent of an array that a setting is: an integer of 64 bits, and no Boolean either. -/
def extent : Setting → Except Fault Int
  | whole value => if fitsWord value then .ok value else .error (.malformed .tooLarge)
  | _ => .error .notNumeric

/-- The extents that a setting declares: the items of a list, the characters of a text, or
itself. -/
def extents : Setting → List Setting
  | list items => items
  | text value => value.toList.map fun c => text (String.singleton c)
  | s => [s]

/-- The setting declares its extents one by one, even if there is but one. -/
def isSequence : Setting → Bool
  | list _ => true
  | text _ => true
  | _ => false

/-- The integer that a table shows for a setting. A number with a point and a text are refused for
their form. -/
def place : Setting → Except Fault Int
  | flag value => .ok (if value then 1 else 0)
  | whole value => .ok value
  | real _ => .error (.malformed .place)
  | text _ => .error (.malformed .place)
  | _ => .error .notNumeric

@[simp] theorem toInt_whole (n : Int) : (whole n).toInt = .ok n := rfl

@[simp] theorem index_whole (n : Int) : (whole n).index = .ok n := rfl

theorem extent_whole {n : Int} (h : fitsWord n = true) : (whole n).extent = .ok n := if_pos h

theorem toNat_pos {n : Int} (h : 0 < n) : 0 < n.toNat := by omega

/-! ### Numbers -/

/-- The number that a setting is, if it is one. -/
def quantity? : Setting → Option Quantity
  | flag value => some (.ofInt (if value then 1 else 0))
  | whole value => some (.ofInt value)
  | real value => some (Binary64.quantity value)
  | _ => none

/-- Two settings that are no lists: the same number, or the same text, or both absent. -/
def equalsSimple (a b : Setting) : Bool :=
  match a.quantity?, b.quantity? with
  | some x, some y => x.equals y
  | _, _ =>
    match a, b with
    | absent, absent => true
    | text s, text t => s == t
    | _, _ => false

/-- What is not a number. -/
def isNaN : Setting → Bool
  | real value => value.isNaN
  | _ => false

mutual

/-- The same number, or the same text, or both absent, or lists or tables of equal settings. -/
def equals : Setting → Setting → Bool
  | list items, list others => equalsAll items others
  | table entries, table others =>
    entries.length == others.length && equalsEntries entries others
  | a, b => equalsSimple a b

/-- Lists of equal settings. Inside of lists and tables, what is not a number equals itself. -/
def equalsAll : List Setting → List Setting → Bool
  | [], [] => true
  | a :: rest, b :: others => (equals a b || a.isNaN && b.isNaN) && equalsAll rest others
  | _, _ => false

/-- Entries of a table that equal those of the same names in another one, in any order. -/
def equalsEntries : List (String × Setting) → List (String × Setting) → Bool
  | [], _ => true
  | (name, a) :: rest, others =>
    (others.lookup name).any (fun b => equals a b || a.isNaN && b.isNaN) &&
      equalsEntries rest others

end

/-- A number that is not larger than another; nothing else has an order. -/
def atMost (a b : Setting) : Except Fault Bool :=
  match a.quantity?, b.quantity? with
  | some x, some y => .ok (x.atMost y)
  | _, _ => .error .notNumeric

/-- A number that is in a closed range. The upper end is looked at only if the lower one is kept. -/
def within (s low high : Setting) : Except Fault Bool := do
  if ← low.atMost s then s.atMost high else return false

/-- The binary64 number nearest to an integer, which must not be too large. -/
def toReal (n : Int) : Except Fault Float :=
  let x := Binary64.nearest (n < 0) n.natAbs 1
  if x.isFinite then .ok x else .error .overflow

/-- No list is made with more items than this, and no text with eight times as many characters. -/
def memory : Nat := 8589934592

/-- A number of items is repeated by an integer of 64 bits. The result, which is no number, has to
be addressed with 64 bits, and it may have only so many items. -/
def repeated (items most : Nat) (unaddressed : Fault) (count : Setting) :
    Except Fault (Option Setting) := do
  let n ← count.index
  let length := items * n.toNat
  if !fitsWord n then throw .overflow
  else if !fitsWord length then throw unaddressed
  else if most < length then throw .memory
  else return none

/-- A text is repeated. -/
def repeatedText (value : String) (count : Setting) : Except Fault (Option Setting) :=
  repeated value.length (8 * memory) .overflow count

/-- A list is repeated. -/
def repeatedList (items : List Setting) (count : Setting) : Except Fault (Option Setting) :=
  repeated items.length memory .memory count

/-- The product of two settings: exact for integers, and rounded if there is another number. A text
or a list times an integer is no number. -/
def times (a b : Setting) : Except Fault (Option Setting) :=
  match a, b with
  | real x, real y => return real (x * y)
  | real x, b => return real (x * (← toReal (← b.index)))
  | a, real y => return real ((← toReal (← a.index)) * y)
  | text value, b => repeatedText value b
  | list items, b => repeatedList items b
  | a, text value => repeatedText value a
  | a, list items => repeatedList items a
  | a, b => return whole ((← a.index) * (← b.index))

@[simp] theorem equals_whole (m n : Int) : (whole m).equals (whole n) = decide (m = n) := by
  simp [equals, equalsSimple, quantity?, Quantity.equals_ofInt]

@[simp] theorem atMost_whole (m n : Int) : (whole m).atMost (whole n) = .ok (decide (m ≤ n)) := by
  simp [atMost, quantity?, Quantity.atMost_ofInt]

@[simp] theorem within_whole (n low high : Int) :
    (whole n).within (whole low) (whole high) = .ok (decide (low ≤ n ∧ n ≤ high)) := by
  by_cases h : low ≤ n <;> simp [within, bind, Except.bind, pure, Except.pure, h]

@[simp] theorem times_whole (m n : Int) :
    (whole m).times (whole n) = .ok (some (whole (m * n))) := rfl

/-! ### Text -/

mutual

/-- A setting as a message shows it among others, where a text has quotes. -/
def listed : Setting → String
  | absent => "None"
  | flag value => if value then "True" else "False"
  | whole value => toString value
  | real value => Binary64.text value
  | text value => Text.quote value
  | list items => "[" ++ ", ".intercalate (listedAll items) ++ "]"
  | table entries => "\x7b" ++ ", ".intercalate (listedEntries entries) ++ "\x7d"

/-- Settings as a message shows them among others. -/
def listedAll : List Setting → List String
  | [] => []
  | s :: rest => listed s :: listedAll rest

/-- Named settings as a message shows them among others. -/
def listedEntries : List (String × Setting) → List String
  | [] => []
  | (name, s) :: rest => (Text.quote name ++ ": " ++ listed s) :: listedEntries rest

end

/-- A setting as a message shows it. -/
def shown : Setting → String
  | text value => value
  | s => s.listed

end Setting

end JacobianAudit
