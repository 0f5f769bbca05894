/-
**What a tableau eliminates.**

Estimates at steps `h`, `h / r`, `h / r ^ 2`, … that differ from their limit by a sum of error terms
`c q * step ^ (p * q)` are followed through a tableau in exact arithmetic. Entry `j` of a row has
lost the first `j` error terms, and each of the others is there with a factor of its own; so an
entry behind the last term is the limit. The search that extrapolates central differences therefore
finds the limit one level after the tableau does.

Main definitions:

* `JacobianAudit.Tableau.expansion` — a limit and its error terms;
* `JacobianAudit.Tableau.remaining` — the factor that is left of an error term;
* `JacobianAudit.Tableau.entry` — an entry of the tableau, in closed form;
* `JacobianAudit.Tableau.rowOver` — the latest row over estimates.

Main results:

* `JacobianAudit.Tableau.entry_succ` — **one elimination**, as an equation between closed forms;
* `JacobianAudit.Tableau.rowOver_reads` — every row has the closed form;
* `JacobianAudit.Ridders.search_settles` — the search takes two levels more than there are terms;
* `JacobianAudit.Tableau.elimination_exact` — **extrapolation is exact** on finite expansions;
* `JacobianAudit.Tableau.extrapolatePlanar_whole` — integer orders stay on the real line.
-/

import Mathlib.Tactic.FieldSimp
import Mathlib.Tactic.Ring
import JacobianAudit.Difference.Fractional
import JacobianAudit.Proofs.Exactness
import JacobianAudit.Proofs.Fields

set_option autoImplicit false

namespace JacobianAudit

namespace Tableau

/-! ### Error terms -/

section Terms

variable {K : Type} [Field K] (p m : ℕ) (r h limit : K) (c : ℕ → K)

/-- A limit and its error terms at a step. -/
def expansion (step : K) : K := limit + ∑ q ∈ Finset.Icc 1 m, c q * step ^ (p * q)

/-- The factor that is left of error term `q` after `j` eliminations. -/
def remaining (q j : ℕ) : K :=
  ∏ l ∈ Finset.range j, (r ^ (p * (l + 1)) - r ^ (p * q)) / (r ^ (p * (l + 1)) - 1)

/-- Entry `j` of row `k`, in closed form. -/
def entry (k j : ℕ) : K :=
  limit + ∑ q ∈ Finset.Icc 1 m, c q * remaining p r q j * (h / r ^ k) ^ (p * q)

theorem entry_zero (k : ℕ) : entry p m r h limit c k 0 = expansion p m limit c (h / r ^ k) := by
  simp only [entry, expansion, remaining, Finset.range_zero, Finset.prod_empty, mul_one]

theorem remaining_succ (q j : ℕ) : remaining p r q (j + 1) =
    remaining p r q j * ((r ^ (p * (j + 1)) - r ^ (p * q)) / (r ^ (p * (j + 1)) - 1)) :=
  Finset.prod_range_succ _ j

/-- A term that was eliminated stays so. -/
theorem remaining_eq_zero {q j : ℕ} (hq : 1 ≤ q) (hqj : q ≤ j) : remaining p r q j = 0 := by
  refine Finset.prod_eq_zero (Finset.mem_range.2 (show q - 1 < j by omega)) ?_
  rw [Nat.sub_add_cancel hq, sub_self, zero_div]

/-- No error term is left behind the last one. -/
theorem entry_eq_limit {k j : ℕ} (hj : m ≤ j) : entry p m r h limit c k j = limit := by
  unfold entry
  rw [Finset.sum_eq_zero, add_zero]
  intro q hq
  obtain ⟨hone, hm⟩ := Finset.mem_Icc.1 hq
  rw [remaining_eq_zero p r hone (hm.trans hj), mul_zero, zero_mul]

variable {r}

/-- One step earlier, an error term was larger by its factor. -/
theorem term_pred (hr : r ≠ 0) (k q : ℕ) :
    (h / r ^ k) ^ (p * q) = r ^ (p * q) * (h / r ^ (k + 1)) ^ (p * q) := by
  rw [← mul_pow, pow_succ', ← mul_div_assoc, mul_div_mul_left _ _ hr]

/-- **One elimination.** The factor that takes away error term `j + 1` leaves the limit as it is,
and changes each of the other terms by a factor. -/
theorem entry_succ (hr : r ≠ 0) {j : ℕ} (hj : r ^ (p * (j + 1)) ≠ 1) (k : ℕ) :
    (r ^ (p * (j + 1)) * entry p m r h limit c (k + 1) j - entry p m r h limit c k j) /
      (r ^ (p * (j + 1)) - 1) = entry p m r h limit c (k + 1) (j + 1) := by
  have hfactor : r ^ (p * (j + 1)) - 1 ≠ 0 := sub_ne_zero.2 hj
  have hterm : ∀ q, r ^ (p * (j + 1)) *
      (c q * remaining p r q j * (h / r ^ (k + 1)) ^ (p * q)) -
        c q * remaining p r q j * (h / r ^ k) ^ (p * q) =
      c q * remaining p r q (j + 1) * (h / r ^ (k + 1)) ^ (p * q) * (r ^ (p * (j + 1)) - 1) := by
    intro q
    rw [term_pred p h hr k q, remaining_succ]
    field_simp
  rw [div_eq_iff hfactor, entry, entry, entry, mul_add, add_sub_add_comm, Finset.mul_sum,
    ← Finset.sum_sub_distrib, Finset.sum_congr rfl fun q _ => hterm q, ← Finset.sum_mul]
  ring

end Terms

/-! ### Rows -/

section Rows

variable {α K : Type} [Scalar α] [Field K] {v : FieldReading α K} {shape : Shape}

/-- The entries of a row from number `j` on are read as given. -/
def RowReads (v : FieldReading α K) (shape : Shape) (f : ℕ → ℕ → K) :
    ℕ → List (Tensor α) → Prop
  | _, [] => True
  | j, t :: rest => v.Reads t shape (f j) ∧ RowReads v shape f (j + 1) rest

/-- The last entry of a row with at least one entry. -/
theorem RowReads.last {f : ℕ → ℕ → K} {row : List (Tensor α)} {j : ℕ} {first : Tensor α}
    (hfirst : v.Reads first shape (f j)) (hrow : RowReads v shape f (j + 1) row) :
    v.Reads (diagonal (first :: row)) shape (f (j + row.length)) := by
  induction row generalizing j first with
  | nil => exact hfirst
  | cons t rest ih =>
      rw [List.length_cons, Nat.add_comm rest.length 1, ← Nat.add_assoc]
      exact ih hrow.1 hrow.2

/-- Eliminating one error term from two arrays. -/
theorem eliminate_reads (factor : α) {finer coarser : Tensor α} {f g : ℕ → K}
    (hf : v.Reads finer shape f) (hg : v.Reads coarser shape g) :
    ∃ t, eliminate factor finer coarser = .ok t ∧
      v.Reads t shape fun i => (v.value factor * f i - g i) / (v.value factor - 1) := by
  have hscaled : v.Reads (finer.map (factor * ·)) shape fun i => v.value factor * f i :=
    hf.map (v.value factor * ·) (v.value_mul factor)
  obtain ⟨u, hu, hread⟩ := hscaled.sub hg
  have hdivide : ∀ x, v.value (x / (factor - Scalar.one)) =
      v.value x / (v.value factor - 1) := by
    intro x
    rw [v.value_div, v.value_sub, v.value_one]
  refine ⟨u.map (· / (factor - Scalar.one)), ?_,
    hread.map (· / (v.value factor - 1)) hdivide⟩
  rw [eliminate, hu]
  rfl

/-- A row follows its predecessor entry by entry. Induction on what is left of the predecessor. -/
theorem eliminateFrom_reads {el : ℕ → Tensor α → Tensor α → Except Fault (Tensor α)}
    {f g : ℕ → ℕ → K} {n : ℕ}
    (hel : ∀ j < n, ∀ finer coarser, v.Reads finer shape (f j) → v.Reads coarser shape (g j) →
      ∃ t, el (j + 1) finer coarser = .ok t ∧ v.Reads t shape (f (j + 1)))
    {row : List (Tensor α)} {j : ℕ} {first : Tensor α} (hn : j + row.length ≤ n)
    (hfirst : v.Reads first shape (f j)) (hrow : RowReads v shape g j row) :
    ∃ next, eliminateFrom el (j + 1) first row = .ok next ∧ next.length = row.length + 1 ∧
      RowReads v shape f j next := by
  induction row generalizing j first with
  | nil => exact ⟨[first], rfl, rfl, hfirst, trivial⟩
  | cons coarser rest ih =>
      rw [List.length_cons] at hn
      obtain ⟨t, ht, hread⟩ := hel j (by omega) first coarser hfirst hrow.1
      obtain ⟨next, hnext, hlength, hreads⟩ := ih (by omega) hread hrow.2
      refine ⟨first :: next, ?_, by rw [List.length_cons, List.length_cons, hlength],
        hfirst, hreads⟩
      rw [eliminateFrom, ht]
      show (do return first :: (← eliminateFrom el (j + 1 + 1) t rest)) = _
      rw [hnext]
      rfl

variable {p m : ℕ} {h : K} {limit : ℕ → K} {c : ℕ → ℕ → K} {ratio : α}

/-- The array is an expansion at a step, entry by entry. -/
def Expands (v : FieldReading α K) (shape : Shape) (p m : ℕ) (limit : ℕ → K) (c : ℕ → ℕ → K)
    (step : K) (t : Tensor α) : Prop :=
  v.Reads t shape fun i => expansion p m (limit i) (fun q => c q i) step

/-- The numbers of row `k`: by the number of the entry, then by the place in the array. -/
def rowEntries (p m : ℕ) (r h : K) (limit : ℕ → K) (c : ℕ → ℕ → K) (k j i : ℕ) : K :=
  entry p m r h (limit i) (fun q => c q i) k j

/-- **The next row has the closed form** if the row before has. -/
theorem extend_reads (hratio : v.value ratio ≠ 0) {k : ℕ}
    (hone : ∀ j < k, v.value ratio ^ (p * (j + 1)) ≠ 1) {row : List (Tensor α)}
    (hlength : row.length = k)
    (hrow : RowReads v shape (rowEntries p m (v.value ratio) h limit c (k - 1)) 0 row)
    {t : Tensor α} (ht : Expands v shape p m limit c (h / v.value ratio ^ k) t) :
    ∃ next, extend row (.array t) p ratio = .ok next ∧ next.length = k + 1 ∧
      RowReads v shape (rowEntries p m (v.value ratio) h limit c k) 0 next := by
  have hfirst : v.Reads t shape (rowEntries p m (v.value ratio) h limit c k 0) :=
    FieldReading.Reads.congr ht fun i => (entry_zero p m _ h (limit i) _ k).symm
  subst hlength
  refine eliminateFrom_reads (fun j hj finer coarser hfiner hcoarser => ?_) (Nat.zero_add _).le
    hfirst hrow
  obtain ⟨factor, hpower, hfactor⟩ := v.value_power ratio (p * (j + 1 : ℕ)) hratio
  rw [← Nat.cast_mul, zpow_natCast] at hfactor
  obtain ⟨u, hu, hread⟩ := eliminate_reads factor hfiner hcoarser
  refine ⟨u, ?_, hread.congr fun i => ?_⟩
  · rw [hpower]
    exact hu
  · -- there is a row before, so this one is not the first
    obtain ⟨l, hl⟩ : ∃ l, row.length = l + 1 := Nat.exists_eq_add_of_lt (Nat.zero_lt_of_lt hj)
      |>.imp fun l hl => by omega
    rw [hfactor, hl]
    exact entry_succ p m h (limit i) _ hratio (hone j hj) l

/-- The last entry of a row that has lost all of its error terms. -/
theorem diagonal_eq_limit {k : ℕ} {r : K} {row : List (Tensor α)} {exact : Tensor α}
    (hexact : v.Reads exact shape limit) (hlength : row.length = k + 1) (hm : m ≤ k)
    (hrow : RowReads v shape (rowEntries p m r h limit c k) 0 row) : diagonal row = exact := by
  obtain ⟨first, rest, rfl⟩ := List.exists_cons_of_length_eq_add_one hlength
  rw [List.length_cons] at hlength
  have hlast := RowReads.last hrow.1 hrow.2
  refine hlast.unique (hexact.congr fun i => ?_)
  exact (entry_eq_limit p m r h (limit i) _ (by omega)).symm

/-- The latest row over estimates. -/
def rowOver (values : List (Supplied α)) (order : ℤ) (ratio : α) :
    Except Fault (List (Tensor α)) :=
  values.foldlM (fun row value => extend row value order ratio) []

theorem rowOver_append (values : List (Supplied α)) (value : Supplied α) (order : ℤ) (ratio : α) :
    rowOver (values ++ [value]) order ratio =
      rowOver values order ratio >>= fun row => extend row value order ratio := by
  rw [rowOver, List.foldlM_append]
  simp only [List.foldlM_cons, List.foldlM_nil, bind_pure]
  rfl

theorem rowOver_succ (values : ℕ → Supplied α) (k : ℕ) (order : ℤ) (ratio : α) :
    rowOver ((List.range (k + 1)).map values) order ratio =
      rowOver ((List.range k).map values) order ratio >>= fun row =>
        extend row (values k) order ratio := by
  rw [List.range_succ, List.map_append, List.map_singleton, rowOver_append]

/-- **Every row has the closed form.** Induction on the number of estimates. -/
theorem rowOver_reads {values : ℕ → Tensor α} {n : ℕ} (hratio : v.value ratio ≠ 0)
    (hone : ∀ j < n, v.value ratio ^ (p * (j + 1)) ≠ 1)
    (hvalues : ∀ k ≤ n, Expands v shape p m limit c (h / v.value ratio ^ k) (values k))
    {k : ℕ} (hk : k ≤ n) :
    ∃ row, rowOver ((List.range (k + 1)).map fun k => .array (values k)) p ratio = .ok row ∧
      row.length = k + 1 ∧
      RowReads v shape (rowEntries p m (v.value ratio) h limit c k) 0 row := by
  induction k with
  | zero =>
      obtain ⟨row, hrow, hrow'⟩ := extend_reads hratio (fun j hj => absurd hj (Nat.not_lt_zero j))
        (List.length_nil (α := Tensor α)) trivial (hvalues 0 hk)
      exact ⟨row, (rowOver_append [] _ _ _).trans hrow, hrow'⟩
  | succ k ih =>
      obtain ⟨row, hrow, hlength, hreads⟩ := ih (by omega)
      obtain ⟨next, hnext, hnext'⟩ := extend_reads hratio (fun j hj => hone j (by omega)) hlength
        hreads (hvalues (k + 1) hk)
      refine ⟨next, ?_, hnext'⟩
      rw [rowOver_succ, hrow]
      exact hnext

end Rows

end Tableau

/-! ### Searches -/

namespace Ridders

variable {σ α K : Type} [Scalar α] [Field K] {v : FieldReading α K} {o : DiffOptions α}
  {meter : σ → ℕ} {shape : Shape} {m : ℕ} {h : K} {limit : ℕ → K} {c : ℕ → ℕ → K}
  {exact : Tensor α}

/-- What is known of a search that goes on after `k` levels. -/
structure Sound (v : FieldReading α K) (o : DiffOptions α) (shape : Shape) (m : ℕ) (h : K)
    (limit : ℕ → K) (c : ℕ → ℕ → K) (k : ℕ) (s : Search α) : Prop where
  length : s.row.length = k
  reads : Tableau.RowReads v shape
    (Tableau.rowEntries 2 m (v.value o.riddersShrink) h limit c (k - 1)) 0 s.row
  step : v.value s.step = h / v.value o.riddersShrink ^ k
  newest : s.newest = if k = 0 then none else some (Tableau.diagonal s.row)
  /-- No change so far has ended the search. -/
  best : ∀ e ∈ s.best, Scalar.lt e.2 o.riddersTolerance = false

/-- The latest diagonal entry can be read. -/
theorem Sound.exists_reads {k : ℕ} {s : Search α}
    (hs : Sound v o shape m h limit c (k + 1) s) :
    ∃ f, v.Reads (Tableau.diagonal s.row) shape f := by
  obtain ⟨first, rest, hcons⟩ := List.exists_cons_of_length_eq_add_one hs.length
  have hreads := hs.reads
  rw [hcons] at hreads ⊢
  exact ⟨_, Tableau.RowReads.last hreads.1 hreads.2⟩

/-- The latest diagonal entry, once all error terms are eliminated. -/
theorem Sound.diagonal_eq {k : ℕ} {s : Search α} (hs : Sound v o shape m h limit c (k + 1) s)
    (hexact : v.Reads exact shape limit) (hm : m ≤ k) : Tableau.diagonal s.row = exact :=
  Tableau.diagonal_eq_limit hexact hs.length hm hs.reads

variable [LinearOrder K]

theorem one_lt_shrink (hv : v.Ordered) (o : DiffOptions α) : 1 < v.value o.riddersShrink := by
  rw [← v.value_one]
  exact (hv.lt_iff _ _).1 o.one_lt_riddersShrink

theorem tolerance_pos (hv : v.Ordered) (o : DiffOptions α) :
    0 < v.value o.riddersTolerance := by
  rw [← v.value_zero]
  exact (hv.lt_iff _ _).1 o.riddersTolerance_pos

/-- No change at all is less than every change that the search has gone on after. -/
theorem judge_of_eq_zero (hv : v.Ordered) {change : α} (hchange : v.value change = 0)
    {best : Option (Tensor α × α)}
    (hbest : ∀ e ∈ best, Scalar.lt e.2 o.riddersTolerance = false) :
    judge change (best.map (·.2)) = .steadier := by
  cases best with
  | none => exact if_pos (hv.isFinite change)
  | some e =>
      refine if_pos ((hv.lt_iff _ _).2 ?_)
      have hgoes : ¬ v.value e.2 < v.value o.riddersTolerance := by
        rw [← hv.lt_iff, hbest e rfl]
        exact Bool.false_ne_true
      rw [hchange]
      exact (tolerance_pos hv o).trans_le (not_lt.1 hgoes)

variable [IsStrictOrderedRing K]

/-- The steps shrink, so every error term does. -/
theorem shrink_pow_ne_one (hv : v.Ordered) (o : DiffOptions α) (j : ℕ) :
    v.value o.riddersShrink ^ (2 * (j + 1)) ≠ 1 :=
  (one_lt_pow₀ (one_lt_shrink hv o) (by omega)).ne'

/-- One more level. -/
theorem Sound.next {k : ℕ} {s : Search α} (hs : Sound v o shape m h limit c k s)
    (hv : v.Ordered) {t : Tensor α}
    (ht : Tableau.Expands v shape 2 m limit c (h / v.value o.riddersShrink ^ k) t) :
    ∃ row, Tableau.extend s.row (.array t) 2 o.riddersShrink = .ok row ∧
      ∀ best, (∀ e ∈ best, Scalar.lt e.2 o.riddersTolerance = false) →
        Sound v o shape m h limit c (k + 1)
          ⟨row, s.step / o.riddersShrink, some (Tableau.diagonal row), best⟩ := by
  have hshrink : v.value o.riddersShrink ≠ 0 := (one_pos.trans (one_lt_shrink hv o)).ne'
  obtain ⟨row, hrow, hlength, hreads⟩ := Tableau.extend_reads (p := 2) hshrink
    (fun j _ => shrink_pow_ne_one hv o j) hs.length hs.reads ht
  refine ⟨row, hrow, fun best hbest => ⟨hlength, hreads, ?_, rfl, hbest⟩⟩
  show v.value (s.step / o.riddersShrink) = _
  rw [v.value_div, hs.step, div_div, pow_succ]

/-- After `k` levels the action takes no more than `m + 2` of them in all, and if it takes so many,
it has found the limit. -/
def Settles (meter : σ → ℕ) (m : ℕ) (exact : Tensor α) (k : ℕ) (a : Action σ (Search α)) : Prop :=
  ∃ s n, a.Gives meter s n ∧ k + n ≤ m + 2 ∧ (k + n = m + 2 → s.answer = exact)

namespace Settles

variable {β : Type} {k : ℕ}

theorem pure {s : Search α} (hk : k ≤ m + 2) (hs : k = m + 2 → s.answer = exact) :
    Settles meter m exact k (Pure.pure s) := ⟨s, 0, .pure s, hk, hs⟩

/-- What costs a level. -/
theorem level {a : Action σ β} {f : β → Action σ (Search α)} {x : β} (ha : a.Gives meter x 1)
    (hf : Settles meter m exact (k + 1) (f x)) : Settles meter m exact k (a >>= f) := by
  obtain ⟨s, n, hgives, hle, hanswer⟩ := hf
  rw [Nat.add_assoc] at hle hanswer
  exact ⟨s, 1 + n, ha.bind hgives, hle, hanswer⟩

/-- What costs nothing. -/
theorem ofExcept {answer : Except Fault β} {f : β → Action σ (Search α)} {x : β}
    (ha : answer = .ok x) (hf : Settles meter m exact k (f x)) :
    Settles meter m exact k (Action.ofExcept answer >>= f) := by
  obtain ⟨s, n, hgives, hrest⟩ := hf
  exact ⟨s, n, (Action.Gives.ofExcept ha).bind_free hgives, hrest⟩

end Settles

/-- **A search over an expansion with `m` error terms takes `m + 2` levels at most**, and if it
takes so many, it answers with the limit. Induction on the levels that are allowed: the tableau
loses its last error term at level `m + 1`, so the next level changes nothing. -/
theorem search_settles (hv : v.Ordered) (hexact : v.Reads exact shape limit)
    {central : α → Action σ (Supplied α)}
    (hcentral : ∀ k step, v.value step = h / v.value o.riddersShrink ^ k →
      ∃ t, (central step).Gives meter (.array t) 1 ∧
        Tableau.Expands v shape 2 m limit c (v.value step) t)
    (levels : ℕ) {k : ℕ} {s : Search α} (hs : Sound v o shape m h limit c k s) (hk : k ≤ m + 1) :
    Settles meter m exact k (search central o levels s) := by
  induction levels generalizing k s with
  | zero => exact .pure (by omega) (by omega)
  | succ levels ih =>
      obtain ⟨t, hgives, hreads⟩ := hcentral k s.step hs.step
      rw [hs.step] at hreads
      obtain ⟨row, hrow, hnext⟩ := hs.next hv hreads
      refine .level hgives (.ofExcept hrow ?_)
      have hnewest := hs.newest
      rcases k with _ | k
      · -- the first estimate has none to be compared with
        rw [hnewest, if_pos rfl]
        exact ih (hnext s.best hs.best) (by omega)
      rw [hnewest, if_neg (Nat.succ_ne_zero k)]
      obtain ⟨f, hf⟩ := (hnext none (by simp)).exists_reads
      obtain ⟨g, hg⟩ := hs.exists_reads
      obtain ⟨change, hchange⟩ := FieldReading.exists_change hf hg
      refine .ofExcept hchange ?_
      by_cases hlast : k = m
      · -- both diagonal entries have lost all error terms
        have hnew := (hnext none (by simp)).diagonal_eq hexact (by omega)
        have hold := hs.diagonal_eq hexact (by omega)
        simp only [] at hnew
        rw [hnew, hold] at hchange
        have hzero := FieldReading.change_eq_zero hv hexact hchange
        have hstop : Scalar.lt change o.riddersTolerance = true := by
          rw [hv.lt_iff, hzero]
          exact tolerance_pos hv o
        rw [judge_of_eq_zero hv hzero hs.best]
        simp only [hstop, if_true]
        exact .pure (by omega) fun _ => hnew
      · -- whatever is made of the change, there are levels left
        cases judge change (s.best.map (·.2)) with
        | steadier =>
            simp only []
            split
            · exact .pure (by omega) (by omega)
            · rename_i hstop
              refine ih (hnext _ fun e he => ?_) (by omega)
              rw [← Option.some.inj he]
              exact Bool.eq_false_iff.2 hstop
        | goOn => exact ih (hnext s.best hs.best) (by omega)
        | stop => exact .pure (by omega) (by omega)

end Ridders

/-! ### Extrapolation -/

namespace Tableau

/-- **Extrapolation is exact on finite expansions.** From estimates whose error terms have the
orders `p`, `2 * p`, … the limit is found as soon as there are more estimates than terms, in a
tableau of its own and in every row behind the last term. A search over central differences of such
a form, whose error terms have the orders `2`, `4`, …, takes two levels more than there are terms at
most, and if it takes so many, it answers with the limit. -/
theorem elimination_exact {α K : Type} [Scalar α] [Field K] (v : FieldReading α K)
    {shape : Shape} {m : ℕ} {limit : ℕ → K} {c : ℕ → ℕ → K} {exact : Tensor α}
    (hexact : v.Reads exact shape limit) :
    (∀ (p n : ℕ) (h : K) (ratio : α) (values : ℕ → Tensor α), v.value ratio ≠ 0 →
      (∀ j, 1 ≤ j → j ≤ n → v.value ratio ^ (p * j) ≠ 1) → m ≤ n →
      (∀ k ≤ n, Expands v shape p m limit c (h / v.value ratio ^ k) (values k)) →
      (1 ≤ n → extrapolate ((List.range (n + 1)).map fun k => .array (values k)) p ratio =
        .ok exact) ∧
      ∀ k ≤ n, ∃ row,
        rowOver ((List.range (k + 1)).map fun k => .array (values k)) p ratio = .ok row ∧
        row.length = k + 1 ∧ (m ≤ k → diagonal row = exact)) ∧
    (∀ [LinearOrder K] [IsStrictOrderedRing K], v.Ordered →
      ∀ {σ : Type} (meter : σ → ℕ) (o : DiffOptions α) (start : α)
        (central : α → Action σ (Supplied α)),
      (∀ k step, v.value step = v.value start / v.value o.riddersShrink ^ k →
        ∃ t, (central step).Gives meter (.array t) 1 ∧
          Expands v shape 2 m limit c (v.value step) t) →
      ∃ answer levels, (Ridders.derivative central start o).Gives meter answer levels ∧
        levels ≤ m + 2 ∧ (levels = m + 2 → answer = exact)) := by
  refine ⟨?_, ?_⟩
  · intro p n h ratio values hratio hone hm hvalues
    have hrows : ∀ k ≤ n, ∃ row,
        rowOver ((List.range (k + 1)).map fun k => .array (values k)) p ratio = .ok row ∧
        row.length = k + 1 ∧ (m ≤ k → diagonal row = exact) := by
      intro k hk
      obtain ⟨row, hrow, hlength, hreads⟩ := rowOver_reads hratio
        (fun j hj => hone (j + 1) (by omega) (by omega)) hvalues hk
      exact ⟨row, hrow, hlength, fun hmk => diagonal_eq_limit hexact hlength hmk hreads⟩
    refine ⟨fun hn => ?_, hrows⟩
    obtain ⟨row, hrow, -, hdiagonal⟩ := hrows n le_rfl
    have hmany : ¬ ((List.range (n + 1)).map fun k => Supplied.array (values k)).length < 2 := by
      rw [List.length_map, List.length_range]
      omega
    rw [extrapolate, lastRow, if_neg hmany]
    show (do return diagonal (← rowOver _ p ratio)) = _
    rw [hrow, ← hdiagonal hm]
    rfl
  · intro _ _ hv σ meter o start central hcentral
    have hs : Ridders.Sound v o shape m (v.value start) limit c 0 ⟨[], start, none, none⟩ := by
      refine ⟨rfl, trivial, ?_, rfl, fun e he => nomatch he⟩
      rw [pow_zero, div_one]
    obtain ⟨s, levels, hgives, hle, hanswer⟩ :=
      Ridders.search_settles hv hexact hcentral o.riddersLevels hs (Nat.zero_le _)
    rw [Nat.zero_add] at hle hanswer
    exact ⟨s.answer, levels, hgives.bind_pure Ridders.Search.answer, hle, hanswer⟩

/-- The estimate `1 + step ^ 2`, and a count of how often it was asked for. -/
def squareError [Inexact] (step : Exact) : Action ℕ (Supplied Exact) := do
  Action.modifyShared fun count => ((), count + 1)
  return .array (.scalar ⟨1 + step.value ^ 2⟩)

theorem expands_squareError [Inexact] (step : ℚ) :
    Expands Exact.reading [] 2 1 (fun _ => 1) (fun _ _ => 1) step (.scalar ⟨1 + step ^ 2⟩) := by
  refine ⟨rfl, ?_⟩
  simp [Tensor.scalar, Shape.size, Exact.reading, expansion]

theorem elimination_exact_squareError :
    letI := rough
    extrapolate [.array (.scalar ⟨2⟩), .array (.scalar ⟨5 / 4⟩)] 2 ⟨2⟩ =
      .ok (.scalar (⟨1⟩ : Exact)) ∧
    ∃ answer levels, (Ridders.derivative squareError ⟨1⟩ extrapolating).Gives id answer levels ∧
      levels ≤ 3 ∧ (levels = 3 → answer = .scalar ⟨1⟩) := by
  let := rough
  have hexact : Exact.reading.Reads (.scalar ⟨1⟩) [] fun _ => 1 := ⟨rfl, rfl⟩
  obtain ⟨htableau, hsearch⟩ := elimination_exact Exact.reading hexact (m := 1)
    (c := fun _ _ => 1)
  refine ⟨?_, ?_⟩
  · have h := htableau 2 1 1 ⟨2⟩ (fun k => .scalar ⟨1 + (1 / 2 ^ k) ^ 2⟩) two_ne_zero
      (fun j hj _ => (one_lt_pow₀ one_lt_two (by omega)).ne') le_rfl
      (fun k _ => expands_squareError _)
    have hvalues : (1 + (1 / 2 ^ 0) ^ 2 : ℚ) = 2 ∧ (1 + (1 / 2 ^ 1) ^ 2 : ℚ) = 5 / 4 := by
      norm_num
    have hrun := h.1 le_rfl
    rw [List.range_succ, List.range_one, List.map_append, List.map_singleton,
      List.map_singleton] at hrun
    simp only [hvalues] at hrun
    exact hrun
  · refine hsearch Exact.reading_ordered id extrapolating ⟨1⟩ squareError fun k step _ => ?_
    exact ⟨_, fun machine w => ⟨_, rfl, rfl⟩, expands_squareError step.value⟩

/-! ### Integer orders -/

theorem eliminatePlanar_real (f : Float) (finer coarser : Tensor Float) :
    eliminatePlanar (.real f) (.real finer) (.real coarser) =
      (eliminate f finer coarser).map .real := by
  show (Planar.minus (.real (finer.map (f * ·))) (.real coarser) >>= fun t =>
    Planar.dividedBy t (.real (f - Scalar.one))) = _
  rw [eliminate]
  show ((finer.map (f * ·)).zipWith (· - ·) coarser >>= fun u => pure (Planar.real u)) >>= _ = _
  cases (finer.map (f * ·)).zipWith (· - ·) coarser <;> rfl

theorem factor_whole (order : ℤ) (ratio : Float) (j : ℕ) :
    factor (.whole order) (some ratio) j = (Scalar.power ratio (order * j)).map .real := by
  show (Scalar.power ratio (order * j) >>= fun x => pure (Planar.real x)) = _
  cases (Scalar.power ratio (order * j) : Except Fault Float) <;> rfl

/-- A row keeps its form if every elimination does. Induction on the row before. -/
theorem eliminateFrom_map {ε δ : Type} {f : ε → δ} {el : ℕ → ε → ε → Except Fault ε}
    {el' : ℕ → δ → δ → Except Fault δ}
    (h : ∀ j a b, el' j (f a) (f b) = (el j a b).map f) (row : List ε) (j : ℕ) (first : ε) :
    eliminateFrom el' j (f first) (row.map f) =
      (eliminateFrom el j first row).map (List.map f) := by
  induction row generalizing j first with
  | nil => rfl
  | cons coarser rest ih =>
      rw [List.map_cons, eliminateFrom, eliminateFrom, h]
      cases el j first coarser with
      | error fault => rfl
      | ok next =>
          show (eliminateFrom el' (j + 1) (f next) (rest.map f) >>= fun row =>
            pure (f first :: row)) = _
          rw [ih]
          show _ = ((eliminateFrom el (j + 1) next rest >>= fun row => pure (first :: row)).map _)
          cases eliminateFrom el (j + 1) next rest <;> rfl

theorem extendPlanar_whole (order : ℤ) (ratio : Float) (row : List (Tensor Float))
    (value : Supplied Float) :
    extendPlanar (.whole order) (some ratio) (row.map .real) value =
      (extend row value order ratio).map (List.map .real) := by
  cases hvalue : value.read with
  | error fault => simp only [extendPlanar, extend, hvalue]; rfl
  | ok first =>
      simp only [extendPlanar, extend, hvalue, bind, Except.bind]
      refine eliminateFrom_map (fun j a b => ?_) row 1 first
      rw [factor_whole]
      cases (Scalar.power ratio (order * j) : Except Fault Float) with
      | error fault => rfl
      | ok f => exact eliminatePlanar_real f a b

/-- **Integer orders stay on the real line**: their tableau is the one that is computed from real
numbers alone. -/
theorem extrapolatePlanar_whole (values : List (Supplied Float)) (order : ℤ) (ratio : Float) :
    extrapolatePlanar values (.whole order) (some ratio) = extrapolate values order ratio := by
  have hrows : ∀ row : List (Tensor Float),
      values.foldlM (extendPlanar (.whole order) (some ratio)) (row.map .real) =
        (values.foldlM (fun row value => extend row value order ratio) row).map
          (List.map .real) := by
    induction values with
    | nil => exact fun row => rfl
    | cons value rest ih =>
        intro row
        rw [List.foldlM_cons, List.foldlM_cons, extendPlanar_whole]
        cases extend row value order ratio with
        | error fault => rfl
        | ok next => exact ih next
  rw [extrapolatePlanar, extrapolate, lastRow, lastRow]
  split
  · rfl
  · have h := hrows []
    rw [List.map_nil] at h
    rw [h]
    cases values.foldlM (fun row value => extend row value order ratio) [] with
    | error fault => rfl
    | ok row =>
        show Except.ok (diagonal ((row.map Planar.real).map Planar.re)) = Except.ok (diagonal row)
        rw [List.map_map]
        exact congrArg (fun row => Except.ok (diagonal row)) (List.map_id row)

end Tableau

end JacobianAudit
