/-
**What the log accounts for.**

A log counts offending entries in three places: in its first line, which gives the number of bad
components and of blocks, in the rows that it shows, and in the lines that say how many rows were
left out. The cap decides about the rows only, and it may be larger than a list, zero or negative.
This module takes a log apart into its lines and shows that the three counts agree: each block that
did not pass has its fragment, and each of its entries is either in a row or among those that the
fragment says it leaves out.

That the pieces of a log are its lines is a fact about the texts in them. None of the numbers breaks
a line, however it is laid out.

Main definitions:

* `JacobianAudit.IsLine` — a text that is one line;
* `JacobianAudit.BlockComparison.headingLine`, `JacobianAudit.Offence.tableRow` — the lines of a
  block with their numbers;
* `JacobianAudit.shownLength` — how many entries a cap lets through;
* `JacobianAudit.BlockComparison.Accounts` — the lines of a fragment;
* `JacobianAudit.Accounted` — the lines of a log.

Main results:

* `JacobianAudit.Decimal.plain_general` — a number is laid out within a line;
* `JacobianAudit.capped_prefix`, `JacobianAudit.length_capped` — what a cap lets through;
* `JacobianAudit.BlockComparison.accounts_of_failed` — a fragment, line by line;
* `JacobianAudit.log_accounts` — **the log accounts for every offending entry**.
-/

import JacobianAudit.Proofs.Tallies

set_option autoImplicit false

namespace JacobianAudit

/-! ### Lines -/

/-- A text does not break the line it stands in. -/
def Plain (s : String) : Prop := '\n' ∉ s.toList

/-- A text is one line: it ends in a line break and has no other. -/
def IsLine (s : String) : Prop := ∃ t, Plain t ∧ s = t ++ "\n"

theorem plain_append {s t : String} (hs : Plain s) (ht : Plain t) : Plain (s ++ t) := by
  rw [Plain, String.toList_append, List.mem_append]
  exact not_or.2 ⟨hs, ht⟩

theorem newline_not_mem_toDigits (n : ℕ) : '\n' ∉ Nat.toDigits 10 n := fun h =>
  absurd (Nat.isDigit_of_mem_toDigits (by decide) le_rfl h) (by decide)

theorem plain_toString_nat (n : ℕ) : Plain (toString n) := by
  rw [Plain, Nat.toString_eq_repr, Nat.toList_repr]
  exact newline_not_mem_toDigits n

theorem plain_toString_int (n : ℤ) : Plain (toString n) := by
  cases n with
  | ofNat n => exact plain_toString_nat n
  | negSucc n =>
      have h : toString (Int.negSucc n) = "-" ++ toString (n + 1) := rfl
      rw [h]
      exact plain_append (by simp [Plain]) (plain_toString_nat _)

namespace Decimal

theorem newline_not_mem_replicate (n : ℕ) {c : Char} (hc : '\n' ≠ c) :
    '\n' ∉ List.replicate n c := fun h => hc (List.eq_of_mem_replicate h)

theorem Digits.newline_not_mem_dropTrailingZeros {l : List Char} (h : '\n' ∉ l) :
    '\n' ∉ dropTrailingZeros l := by
  cases l with
  | nil => exact h
  | cons c rest =>
      rw [List.mem_cons, not_or] at h
      simp only [dropTrailingZeros, List.mem_cons, List.mem_reverse, not_or]
      exact ⟨h.1, fun hmem =>
        h.2 (List.mem_reverse.1 ((List.dropWhile_sublist _).subset hmem))⟩

namespace Layout

variable {d : Digits}

theorem newline_not_mem_wholePart (h : '\n' ∉ d.chars) : '\n' ∉ wholePart d := by
  unfold wholePart
  split
  · decide
  · dsimp only
    rw [List.mem_append, not_or]
    exact ⟨fun hmem => h (List.mem_of_mem_take hmem), newline_not_mem_replicate _ (by decide)⟩

theorem newline_not_mem_fractionPart (h : '\n' ∉ d.chars) : '\n' ∉ fractionPart d := by
  unfold fractionPart
  split
  · rw [List.mem_append, not_or]
    exact ⟨newline_not_mem_replicate _ (by decide), h⟩
  · exact fun hmem => h (List.mem_of_mem_drop hmem)

theorem newline_not_mem_positional (l : Layout) (h : '\n' ∉ d.chars) : '\n' ∉ l.positional d := by
  have hwhole := newline_not_mem_wholePart h
  have hfraction := newline_not_mem_fractionPart h
  unfold positional
  split
  · rw [List.mem_append, not_or]
    refine ⟨hwhole, ?_⟩
    split <;> decide
  · simp only [List.mem_append, List.mem_cons, not_or]
    exact ⟨hwhole, by decide, hfraction⟩

theorem newline_not_mem_exponentMark (e : ℤ) : '\n' ∉ exponentMark e := by
  simp only [exponentMark, List.mem_cons, List.mem_append, not_or]
  refine ⟨by decide, ?_, newline_not_mem_replicate _ (by decide), newline_not_mem_toDigits _⟩
  split <;> decide

theorem newline_not_mem_scientific (h : '\n' ∉ d.chars) : '\n' ∉ scientific d := by
  have hmark := newline_not_mem_exponentMark d.exponent
  unfold scientific
  split
  · exact hmark
  · rename_i hchars
    simp_all
  · rename_i hchars
    simp_all

theorem newline_not_mem_write (l : Layout) (h : '\n' ∉ d.chars) : '\n' ∉ l.write d := by
  unfold write
  split
  · exact newline_not_mem_positional l h
  · exact newline_not_mem_scientific h

end Layout

/-- **A number is laid out within a line**, with however many digits. -/
theorem plain_general (places : ℕ) (q : Quantity) : Plain (general places q) := by
  unfold general Layout.render
  split
  · simp [Plain]
  · split <;> simp [Plain]
  · rename_i negative num den
    rw [Plain, String.toList_ofList, List.mem_append, not_or]
    constructor
    · split <;> decide
    · refine Layout.newline_not_mem_write _ ?_
      split
      · decide
      · exact Digits.newline_not_mem_dropTrailingZeros (newline_not_mem_toDigits _)

theorem plain_padLeft (width : ℕ) {s : String} (h : Plain s) : Plain (padLeft width s) :=
  plain_append (by
    rw [Plain, String.toList_ofList]
    exact newline_not_mem_replicate _ (by decide)) h

end Decimal

/-! ### The lines of a log -/

/-- A text that ends in a line is one, if nothing before breaks it. -/
theorem isLine_append {s t : String} (hs : Plain s) (ht : IsLine t) : IsLine (s ++ t) := by
  obtain ⟨u, hu, rfl⟩ := ht
  exact ⟨s ++ u, plain_append hs hu, String.append_assoc.symm⟩

theorem isLine_end : IsLine "\n" := ⟨"", by simp [Plain], rfl⟩

theorem isLine_stop : IsLine ".\n" := ⟨".", by simp [Plain], rfl⟩

section Lines

variable {α : Type} [Scalar α]

/-- The row of an entry: its place, the two derivatives and their error, each at the right end of
its column. -/
def Offence.tableRow (o : Offence α) : String :=
  "  " ++ Decimal.padLeft 4 (toString o.row) ++ " " ++ Decimal.padLeft 4 (toString o.col) ++ " " ++
    Decimal.padLeft 17 (Decimal.general 10 (Scalar.quantity o.analytic)) ++ " " ++
    Decimal.padLeft 17 (Decimal.general 10 (Scalar.quantity o.numeric)) ++ " " ++
    Decimal.padLeft 17 (Decimal.general 10 (Scalar.quantity o.error)) ++ "\n"

/-- The first line of a block's fragment: the block, its worst error and the tolerance. -/
def BlockComparison.headingLine (c : BlockComparison α) : String :=
  "Parameter block " ++ c.block.shown ++ ": worst relative error " ++
    Decimal.general 6 (Scalar.quantity c.worst) ++ " exceeds tolerance " ++
    Decimal.general 6 (Scalar.quantity c.tolerance) ++ ".\n"

theorem Offence.line_eq_tableRow (o : Offence α) : o.line = o.tableRow := rfl

theorem BlockComparison.heading_eq_headingLine (c : BlockComparison α) :
    c.heading = c.headingLine := rfl

theorem tableLine_names : tableLine "row" "col" "analytic" "numeric" "rel. error" =
    "   row  col          analytic           numeric        rel. error\n" := by
  decide +kernel

theorem isLine_headerLine (components blocks : ℕ) (worst : α) :
    IsLine (headerLine components blocks worst) := by
  have hnumber := plain_toString_nat
  have hfirst := plain_append (s := "Detected ") (by simp [Plain]) (hnumber components)
  have hsecond := plain_append (plain_append hfirst
    (t := " bad Jacobian component(s) in ") (by simp [Plain])) (hnumber blocks)
  exact isLine_append (plain_append (plain_append hsecond
    (t := " parameter block(s). Worst relative error was ") (by simp [Plain]))
    (Decimal.plain_general 6 (Scalar.quantity worst))) isLine_stop

theorem Offence.isLine_tableRow (o : Offence α) : IsLine o.tableRow := by
  have hblank : ∀ {s t : String}, Plain s → Plain t → Plain (s ++ " " ++ t) := fun hs ht =>
    plain_append (plain_append hs (by simp [Plain])) ht
  have hnumber : ∀ x : α, Plain (Decimal.padLeft 17 (Decimal.general 10 (Scalar.quantity x))) :=
    fun x => Decimal.plain_padLeft 17 (Decimal.plain_general 10 _)
  have hplace : ∀ n : ℤ, Plain (Decimal.padLeft 4 (toString n)) := fun n =>
    Decimal.plain_padLeft 4 (plain_toString_int n)
  have hrow := plain_append (s := "  ") (by simp [Plain]) (hplace o.row)
  exact isLine_append (hblank (hblank (hblank (hblank hrow (hplace o.col)) (hnumber o.analytic))
    (hnumber o.numeric)) (hnumber o.error)) isLine_end

/-- The names of the columns are a line. -/
theorem isLine_names :
    IsLine "   row  col          analytic           numeric        rel. error\n" :=
  ⟨"   row  col          analytic           numeric        rel. error", by simp [Plain],
    by decide +kernel⟩

/-- A heading is a line if the block's number is an integer. -/
theorem BlockComparison.isLine_headingLine {c : BlockComparison α} {k : ℤ}
    (h : c.block = .whole k) : IsLine c.headingLine := by
  have hnumber : Plain c.block.shown := h ▸ plain_toString_int k
  have hfirst := plain_append (s := "Parameter block ") (by simp [Plain]) hnumber
  have hsecond := plain_append (plain_append hfirst
    (t := ": worst relative error ") (by simp [Plain]))
    (Decimal.plain_general 6 (Scalar.quantity c.worst))
  exact isLine_append (plain_append (plain_append hsecond
    (t := " exceeds tolerance ") (by simp [Plain]))
    (Decimal.plain_general 6 (Scalar.quantity c.tolerance))) isLine_stop

theorem isLine_omitted (omitted : ℕ) :
    IsLine ("  ... " ++ toString omitted ++ " more offending entries not shown.\n") :=
  isLine_append (plain_append (by simp [Plain]) (plain_toString_nat omitted))
    ⟨" more offending entries not shown.", by simp [Plain], rfl⟩

end Lines

/-! ### Caps -/

/-- How many of some entries a cap lets through: as many as it says or all, and if it is negative
all but so many. -/
def shownLength (cap : ℤ) (n : ℕ) : ℤ := if 0 ≤ cap then min cap n else max 0 (n + cap)

theorem capped_prefix {β : Type} (cap : ℤ) (items : List β) : capped cap items <+: items := by
  unfold capped
  split <;> exact List.take_prefix _ _

theorem length_capped {β : Type} (cap : ℤ) (items : List β) :
    ((capped cap items).length : ℤ) = shownLength cap items.length := by
  unfold capped shownLength
  split <;> rw [List.length_take] <;> omega

/-! ### Fragments and logs -/

section Accounts

variable {α : Type} [Scalar α]

/-- The lines of a fragment: a heading, the names of the columns, a row for each of the first
entries, as many as the cap lets through, and, if those are not all of them, the number of the
others. A block's number is kept as it was written; as an integer it does not break its line. -/
structure BlockComparison.Accounts (cap : ℤ) (c : BlockComparison α) (shown : List (Offence α))
    (omitted : ℕ) (lines : List String) : Prop where
  shown_prefix : shown <+: c.offending
  length_shown : (shown.length : ℤ) = shownLength cap c.offending.length
  all : shown.length + omitted = c.offending.length
  lines_eq : lines =
    [c.headingLine, "   row  col          analytic           numeric        rel. error\n"] ++
      shown.map Offence.tableRow ++
      if shown.length < c.offending.length then
        ["  ... " ++ toString omitted ++ " more offending entries not shown.\n"]
      else []
  isLine : ∀ k : ℤ, c.block = .whole k → ∀ line ∈ lines, IsLine line

/-- **A fragment, line by line.** -/
theorem BlockComparison.accounts_of_failed {c : BlockComparison α} (h : c.passed = false)
    (cap : ℤ) :
    ∃ lines shown omitted, c.Accounts cap shown omitted lines ∧
      c.render cap = String.join lines := by
  have hstart := capped_prefix cap c.offending
  have hlength := hstart.length_le
  refine ⟨_, capped cap c.offending, c.offending.length - (capped cap c.offending).length,
    ⟨hstart, length_capped cap c.offending, by omega, rfl, ?_⟩, ?_⟩
  · intro k hblock line hline
    simp only [List.mem_append, List.mem_cons, List.not_mem_nil, or_false, List.mem_map] at hline
    rcases hline with ((rfl | rfl) | ⟨o, -, rfl⟩) | hline
    · exact isLine_headingLine hblock
    · exact isLine_names
    · exact o.isLine_tableRow
    · split at hline
      · obtain rfl := List.mem_singleton.1 hline
        exact isLine_omitted _
      · cases hline
  · have hrows : Offence.line = (Offence.tableRow : Offence α → String) :=
      funext Offence.line_eq_tableRow
    simp only [render, h, heading_eq_headingLine, tableLine_names, hrows, Bool.false_eq_true,
      if_false, String.join_append, String.join_cons, String.join_nil, String.append_empty,
      String.append_assoc]
    congr 3
    split
    · rw [omittedLine, if_neg (by omega), String.join_cons, String.join_nil, String.append_empty,
        String.append_assoc]
    · rw [omittedLine, if_pos (by omega), String.join_nil]

/-- The blocks that did not pass, each with the lines of its fragment. -/
theorem exists_fragments (cap : ℤ) {failed : List (BlockComparison α)}
    (h : ∀ c ∈ failed, c.passed = false) :
    ∃ fragments, List.Forall₂ (fun c lines => ∃ shown omitted,
        BlockComparison.Accounts cap c shown omitted lines) failed fragments ∧
      String.join (failed.map (·.render cap)) = String.join fragments.flatten := by
  induction failed with
  | nil => exact ⟨[], .nil, rfl⟩
  | cons c failed ih =>
      obtain ⟨hc, hfailed⟩ := List.forall_mem_cons.1 h
      obtain ⟨lines, shown, omitted, haccounts, hrender⟩ := c.accounts_of_failed hc cap
      obtain ⟨fragments, hfragments, hjoin⟩ := ih hfailed
      refine ⟨lines :: fragments, .cons ⟨shown, omitted, haccounts⟩ hfragments, ?_⟩
      rw [List.map_cons, String.join_cons, hrender, hjoin, List.flatten_cons, String.join_append]

/-- What a worst error and a log say about some blocks. The log is empty exactly when every block
passed. Otherwise it is one line and, in the order of the blocks, one fragment for each block that
did not pass; the first line counts the entries of all those blocks, and the blocks. The worst error
is zero where there are no blocks, and otherwise the largest of the blocks' worst errors. -/
structure Accounted (comparisons : List (BlockComparison α)) (cap : ℤ) (worst : α) (log : String) :
    Prop where
  empty_iff : log = "" ↔ ∀ c ∈ comparisons, c.passed = true
  lines : log ≠ "" → ∃ failed header fragments,
    failed = comparisons.filter (fun c => !c.passed) ∧
    log = String.join (header :: fragments.flatten) ∧ IsLine header ∧
    header = headerLine (failed.map (·.offending.length)).sum failed.length worst ∧
    List.Forall₂ (fun c lines => ∃ shown omitted,
      BlockComparison.Accounts cap c shown omitted lines) failed fragments
  none : comparisons = [] → worst = Scalar.zero
  largest : comparisons ≠ [] → Scalar.IsLargest (comparisons.map (·.worst)) worst

/-- **The log accounts for every offending entry**, for all blocks and under every cap: each entry
of a block that did not pass is counted in the first line, and is either in a row of the block's
fragment or among those that the fragment says it leaves out. -/
theorem log_accounts [OrderedScalar α] (comparisons : List (BlockComparison α)) (cap : ℤ) :
    Accounted comparisons cap (aggregate comparisons cap).1 (aggregate comparisons cap).2 := by
  refine ⟨diagnosticLog_eq_empty_iff, fun hlog => ?_, ?_, isLargest_worstOfBlocks⟩
  · have hfailed : ∀ c ∈ comparisons.filter fun c => !c.passed, c.passed = false := by simp
    obtain ⟨fragments, hfragments, hjoin⟩ := exists_fragments cap hfailed
    have hne : (comparisons.filter fun c => !c.passed).isEmpty = false := by
      rw [List.isEmpty_eq_false_iff, Ne, List.filter_eq_nil_iff]
      intro hnone
      exact hlog (diagnosticLog_eq_empty_iff.2 (by simpa using hnone))
    refine ⟨_, _, fragments, rfl, ?_, isLine_headerLine _ _ _, rfl, hfragments⟩
    simp only [aggregate, diagnosticLog, hne, Bool.false_eq_true, if_false, hjoin,
      List.length_flatMap, String.join_cons, summary_eq_headerLine]
  · rintro rfl
    rfl

end Accounts

/-- A block with three offending entries, one that passed, and one whose worst error is not a
number although it lists no entry. -/
def mixedBlocks : List (BlockComparison Float) :=
  [⟨.count 0, 2.0, 0.25, [⟨0, 1, 1.0, -1.0, 2.0⟩, ⟨1, 0, 2.0, 1.0, 0.5⟩, ⟨1, 1, 4.0, 2.0, 0.5⟩]⟩,
    ⟨.count 1, 0.125, 0.25, []⟩, ⟨.count 2, 0.0 / 0.0, 0.25, []⟩]

theorem log_accounts_mixed :
    (aggregate mixedBlocks (-1)).2 = String.join
      ["Detected 3 bad Jacobian component(s) in 2 parameter block(s). ",
        "Worst relative error was nan.\n",
        "Parameter block 0: worst relative error 2 exceeds tolerance 0.25.\n",
        "   row  col          analytic           numeric        rel. error\n",
        "     0    1                 1                -1                 2\n",
        "     1    0                 2                 1               0.5\n",
        "  ... 1 more offending entries not shown.\n",
        "Parameter block 2: worst relative error nan exceeds tolerance 0.25.\n",
        "   row  col          analytic           numeric        rel. error\n"] ∧
      Accounted mixedBlocks (-1) (aggregate mixedBlocks (-1)).1 (aggregate mixedBlocks (-1)).2 :=
  ⟨by decide +kernel, log_accounts mixedBlocks (-1)⟩

end JacobianAudit
