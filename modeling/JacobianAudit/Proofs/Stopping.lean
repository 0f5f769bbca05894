/-
**When an extrapolation stops, and what it answers.**

The search for a limit is a loop over a handful of variables. What it computes can be said without
them: a tableau over all central differences has a diagonal, the diagonal changes from one level to
the next, and both the level at which the search stops and the entry that it answers with are
determined by the sequence of these changes. This module says so, and proves that the loop computes
it, for scalars that may be infinite or no numbers.

The invariant is about the least change so far. It is known to the loop because nothing but the
first least finite change is ever remembered, and because a change that is infinite has stopped it.

Main definitions:

* `JacobianAudit.Ridders.stepAt` — the step of a level;
* `JacobianAudit.Ridders.Levels` — the diagonal of the tableau, and its changes;
* `JacobianAudit.Ridders.FirstLeast` — the first of the least changes;
* `JacobianAudit.Ridders.Outgrown`, `JacobianAudit.Ridders.Halts` — why a search stops;
* `JacobianAudit.Ridders.StopsAfter`, `JacobianAudit.Ridders.Picks` — when it stops, and with
  which entry.

Main results:

* `JacobianAudit.Ridders.judged` — what a judgement says about the changes so far;
* `JacobianAudit.Ridders.search_level` — **one level of a search**;
* `JacobianAudit.Ridders.search_reaches` — a search gets to every level before it stops;
* `JacobianAudit.Ridders.derivative_computes` — **the search computes what the changes determine**.
-/

import Mathlib.Order.Bounds.Basic
import JacobianAudit.Proofs.Deeds
import JacobianAudit.Proofs.Doubling
import JacobianAudit.Proofs.Elimination
import JacobianAudit.Proofs.Maxima
import JacobianAudit.Proofs.Obstacles

set_option autoImplicit false

namespace JacobianAudit

namespace Ridders

variable {σ α ε : Type} [Scalar α]

/-! ### The description -/

/-- The step of a level: the start, and then always the step before over the shrink factor. -/
def stepAt (o : DiffOptions α) (start : α) : ℕ → α
  | 0 => start
  | k + 1 => stepAt o start k / o.riddersShrink

/-- The first levels of a tableau over estimates: the last entry of each row, and the largest
change of an entry from one such array to the next. -/
structure Levels (o : DiffOptions α) (values : ℕ → Supplied α) (n : ℕ) (diagonal : ℕ → Tensor α)
    (changes : ℕ → α) : Prop where
  row : ∀ k < n, ∃ row, Tableau.rowOver ((List.range (k + 1)).map values) 2 o.riddersShrink =
    .ok row ∧ diagonal k = Tableau.diagonal row
  change_eq : ∀ k, k + 1 < n → change (diagonal (k + 1)) (diagonal k) = .ok (changes (k + 1))

/-- The first of those levels from `1` on and before `n` whose change is least among the changes
with a property. -/
structure FirstLeast (p : α → Prop) (changes : ℕ → α) (n b : ℕ) : Prop where
  pos : 0 < b
  lt : b < n
  holds : p (changes b)
  least : ∀ j, 0 < j → j < n → p (changes j) → Scalar.le (changes b) (changes j) = true
  first : ∀ j, 0 < j → j < b → p (changes j) → Scalar.le (changes j) (changes b) = false

/-- The change is at least twice the least change before that is a number. Where there is none, an
infinite change is. -/
def Outgrown (changes : ℕ → α) (k : ℕ) : Prop :=
  (∃ b, FirstLeast (fun x => Scalar.isNaN x = false) changes k b ∧
    Scalar.le (Scalar.two * changes b) (changes k) = true) ∨
  (∀ j, 0 < j → j < k → Scalar.isNaN (changes j) = true) ∧
    Scalar.isNaN (changes k) = false ∧ Scalar.isFinite (changes k) = false

/-- The latest change of `m` levels is finite and within the tolerance, or else too large. -/
def Halts (o : DiffOptions α) (changes : ℕ → α) (m : ℕ) : Prop :=
  Scalar.isFinite (changes (m - 1)) = true ∧
    Scalar.lt (changes (m - 1)) o.riddersTolerance = true ∨
  Outgrown changes (m - 1)

/-- A search takes so many levels: two at least, and the first number from there on at which it has
a reason to stop, the end of the levels being one. -/
def StopsAfter (o : DiffOptions α) (changes : ℕ → α) (m : ℕ) : Prop :=
  IsLeast {m | 2 ≤ m ∧ m ≤ o.riddersLevels ∧ (m = o.riddersLevels ∨ Halts o changes m)} m

/-- The entry that `m` levels pick: the first one with the least finite change, or the latest
one if no change is finite. -/
def Picks (diagonal : ℕ → Tensor α) (changes : ℕ → α) (m : ℕ) (answer : Tensor α) : Prop :=
  (∃ b, FirstLeast (fun x => Scalar.isFinite x = true) changes m b ∧ answer = diagonal b) ∨
  (∀ j, 0 < j → j < m → Scalar.isFinite (changes j) = false) ∧ answer = diagonal (m - 1)

/-- There always is a level to stop at. -/
theorem exists_stopsAfter (o : DiffOptions α) (changes : ℕ → α) : ∃ m, StopsAfter o changes m := by
  classical
  have hend : ∃ m, 2 ≤ m ∧ m ≤ o.riddersLevels ∧ (m = o.riddersLevels ∨ Halts o changes m) :=
    ⟨o.riddersLevels, o.two_le_riddersLevels, le_rfl, .inl rfl⟩
  exact ⟨Nat.find hend, Nat.find_spec hend, fun m hm => Nat.find_min' hend hm⟩

theorem Levels.mono {o : DiffOptions α} {values : ℕ → Supplied α} {n n' : ℕ}
    {diagonal : ℕ → Tensor α} {changes : ℕ → α} (h : Levels o values n diagonal changes)
    (hn : n' ≤ n) : Levels o values n' diagonal changes :=
  ⟨fun k hk => h.row k (by omega), fun k hk => h.change_eq k (by omega)⟩

theorem Levels.congr {o : DiffOptions α} {values values' : ℕ → Supplied α} {n : ℕ}
    {diagonal : ℕ → Tensor α} {changes : ℕ → α} (h : Levels o values n diagonal changes)
    (hv : ∀ k < n, values k = values' k) : Levels o values' n diagonal changes := by
  refine ⟨fun k hk => ?_, h.change_eq⟩
  have hmap : (List.range (k + 1)).map values' = (List.range (k + 1)).map values :=
    List.map_congr_left fun j hj => (hv j (by have := List.mem_range.1 hj; omega)).symm
  rw [hmap]
  exact h.row k hk

/-! ### The least change so far -/

/-- One level more. -/
theorem forall_before_succ {p : ℕ → Prop} {n : ℕ} (h : ∀ j, 0 < j → j < n → p j) (hn : p n) :
    ∀ j, 0 < j → j < n + 1 → p j := by
  intro j hj hjn
  rcases Nat.lt_succ_iff_lt_or_eq.1 hjn with hjn | rfl
  · exact h j hj hjn
  · exact hn

section FirstLeast

variable {p q : α → Prop} {changes : ℕ → α} {n b b' : ℕ}

theorem FirstLeast.unique (h : FirstLeast p changes n b) (h' : FirstLeast p changes n b') :
    b = b' := by
  have hnot : ∀ {b b'}, FirstLeast p changes n b → FirstLeast p changes n b' → ¬b < b' := by
    intro b b' h h' hlt
    have hle := h.least b' h'.pos h'.lt h'.holds
    rw [h'.first b h.pos hlt h.holds] at hle
    cases hle
  exact le_antisymm (not_lt.1 (hnot h' h)) (not_lt.1 (hnot h h'))

/-- Where two properties say the same of the changes, so do the levels. -/
theorem FirstLeast.congr (h : FirstLeast p changes n b)
    (hpq : ∀ j, 0 < j → j < n → (p (changes j) ↔ q (changes j))) : FirstLeast q changes n b where
  pos := h.pos
  lt := h.lt
  holds := (hpq b h.pos h.lt).1 h.holds
  least j hj hlt hq := h.least j hj hlt ((hpq j hj hlt).2 hq)
  first j hj hlt hq := h.first j hj hlt ((hpq j hj (hlt.trans h.lt)).2 hq)

/-- A change that is not below the least one leaves it the least. -/
theorem FirstLeast.keep (h : FirstLeast p changes n b)
    (hn : p (changes n) → Scalar.le (changes b) (changes n) = true) :
    FirstLeast p changes (n + 1) b where
  pos := h.pos
  lt := h.lt.trans n.lt_succ_self
  holds := h.holds
  least := forall_before_succ h.least hn
  first := h.first

variable [OrderedScalar α]

/-- A change that is below the least one becomes the least. -/
theorem FirstLeast.replace (h : FirstLeast p changes n b) (hp : p (changes n))
    (hlt : Scalar.lt (changes n) (changes b) = true) : FirstLeast p changes (n + 1) n := by
  have hnb := (Scalar.lt_eq_true_iff.1 hlt).1
  have hbelow : ∀ j, 0 < j → j < n → p (changes j) →
      Scalar.le (changes n) (changes j) = true ∧ Scalar.le (changes j) (changes n) = false :=
    fun j hj hjn hpj =>
      Scalar.lt_eq_true_iff.1 (Scalar.lt_of_lt_of_le hlt (h.least j hj hjn hpj))
  exact ⟨h.pos.trans h.lt, n.lt_succ_self, hp,
    forall_before_succ (fun j hj hjn hpj => (hbelow j hj hjn hpj).1)
      fun _ => OrderedScalar.le_self_of_le_left hnb,
    fun j hj hjn hpj => (hbelow j hj hjn hpj).2⟩

omit [OrderedScalar α] in
/-- The first change with a property is the least one. -/
theorem FirstLeast.start (hn : 0 < n) (hp : p (changes n))
    (hself : Scalar.le (changes n) (changes n) = true)
    (hbefore : ∀ j, 0 < j → j < n → ¬p (changes j)) : FirstLeast p changes (n + 1) n where
  pos := hn
  lt := n.lt_succ_self
  holds := hp
  least := forall_before_succ (fun j hj hjn hpj => absurd hpj (hbefore j hj hjn)) fun _ => hself
  first j hj hjn hpj := absurd hpj (hbefore j hj hjn)

end FirstLeast

/-! ### Judgements -/

/-- What is remembered of the levels before `k`: the first one with the least finite change, and
that change. -/
def Best (diagonal : ℕ → Tensor α) (changes : ℕ → α) (k : ℕ) : Option (Tensor α × α) → Prop
  | none => ∀ j, 0 < j → j < k → Scalar.isFinite (changes j) = false
  | some (entry, change) => ∃ b, FirstLeast (fun x => Scalar.isFinite x = true) changes k b ∧
      entry = diagonal b ∧ change = changes b

/-- What is known of the changes before level `k` while the search goes on. -/
structure Running (o : DiffOptions α) (changes : ℕ → α) (k : ℕ) : Prop where
  number : ∀ j, 0 < j → j < k → Scalar.isNaN (changes j) = true ∨
    Scalar.isFinite (changes j) = true
  above : ∀ j, 0 < j → j < k → Scalar.isFinite (changes j) = true →
    Scalar.lt (changes j) o.riddersTolerance = false

theorem Running.succ {o : DiffOptions α} {changes : ℕ → α} {k : ℕ} (h : Running o changes k)
    (hnumber : Scalar.isNaN (changes k) = true ∨ Scalar.isFinite (changes k) = true)
    (habove : Scalar.isFinite (changes k) = true →
      Scalar.lt (changes k) o.riddersTolerance = false) : Running o changes (k + 1) where
  number := forall_before_succ h.number hnumber
  above := forall_before_succ h.above habove

section Judge

variable [MeasuredScalar α] {o : DiffOptions α} {diagonal : ℕ → Tensor α} {changes : ℕ → α} {k : ℕ}
  {best : Option (Tensor α × α)}

/-- While the search goes on, the numbers among the changes are the finite ones. -/
theorem Running.isNaN_eq_false_iff (h : Running o changes k) {j : ℕ} (hj : 0 < j) (hjk : j < k) :
    Scalar.isNaN (changes j) = false ↔ Scalar.isFinite (changes j) = true := by
  refine ⟨fun hnumber => (h.number j hj hjk).resolve_left ?_, MeasuredScalar.isNaN_of_isFinite⟩
  rw [hnumber]
  exact Bool.false_ne_true

/-- Whether a change is too large is decided by the least one that is remembered. -/
theorem Running.outgrown_iff (h : Running o changes k) {b : ℕ}
    (hb : FirstLeast (fun x => Scalar.isFinite x = true) changes k b) :
    Outgrown changes k ↔ Scalar.le (Scalar.two * changes b) (changes k) = true := by
  have hleast : FirstLeast (fun x => Scalar.isNaN x = false) changes k b :=
    hb.congr fun j hj hjk => (h.isNaN_eq_false_iff hj hjk).symm
  constructor
  · rintro (⟨b', hb', hle⟩ | ⟨hall, -⟩)
    · rwa [hleast.unique hb']
    · have hnan := hall b hb.pos hb.lt
      rw [hleast.holds] at hnan
      cases hnan
  · exact fun hle => .inl ⟨b, hleast, hle⟩

/-- Without a finite change before, only an infinite change is too large. -/
theorem Running.outgrown_iff_of_none (h : Running o changes k)
    (hnone : ∀ j, 0 < j → j < k → Scalar.isFinite (changes j) = false) :
    Outgrown changes k ↔
      Scalar.isNaN (changes k) = false ∧ Scalar.isFinite (changes k) = false := by
  constructor
  · rintro (⟨b, hb, -⟩ | ⟨-, hinfinite⟩)
    · have hfinite := (h.isNaN_eq_false_iff hb.pos hb.lt).1 hb.holds
      rw [hnone b hb.pos hb.lt] at hfinite
      cases hfinite
    · exact hinfinite
  · refine fun hinfinite => .inr ⟨fun j hj hjk => ?_, hinfinite⟩
    refine (h.number j hj hjk).resolve_right ?_
    rw [hnone j hj hjk]
    exact Bool.false_ne_true

/-- The first finite change is remembered. -/
theorem Best.first (h : Best diagonal changes k none) (hk : 0 < k)
    (hfinite : Scalar.isFinite (changes k) = true) :
    Best diagonal changes (k + 1) (some (diagonal k, changes k)) := by
  refine ⟨k, .start hk hfinite ?_ fun j hj hjk => ?_, rfl, rfl⟩
  · exact Scalar.isNaN_eq_false_iff.1 (MeasuredScalar.isNaN_of_isFinite hfinite)
  · rw [h j hj hjk]
    exact Bool.false_ne_true

omit [MeasuredScalar α] in
/-- A change that is not finite is not remembered. -/
theorem Best.keep (h : Best diagonal changes k best)
    (hinfinite : Scalar.isFinite (changes k) = false) : Best diagonal changes (k + 1) best := by
  cases best with
  | none => exact forall_before_succ h hinfinite
  | some found =>
      obtain ⟨b, hb, hfound⟩ := h
      refine ⟨b, hb.keep fun hfinite => ?_, hfound⟩
      rw [hinfinite] at hfinite
      cases hfinite

/-- What is below a finite change is no infinity. -/
theorem isFinite_of_lt {x y : α} (hx : Scalar.isNaN x = false → Scalar.le Scalar.zero x = true)
    (hy : Scalar.isFinite y = true) (hlt : Scalar.lt x y = true) : Scalar.isFinite x = true := by
  obtain ⟨hxy, hyx⟩ := Scalar.lt_eq_true_iff.1 hlt
  by_contra hinfinite
  rw [Bool.not_eq_true] at hinfinite
  have hnumber := Scalar.isNaN_eq_false_iff.2 (OrderedScalar.le_self_of_le_left hxy)
  have hge := MeasuredScalar.le_of_infinite (MeasuredScalar.isNaN_of_isFinite hy) (hx hnumber)
    hinfinite
  rw [hyx] at hge
  cases hge

/-- What a judgement says about the changes so far. -/
inductive Judged (o : DiffOptions α) (diagonal : ℕ → Tensor α) (changes : ℕ → α) (k : ℕ)
    (best : Option (Tensor α × α)) : Judgement → Prop
  /-- The change is finite, and the least one. -/
  | steadier : Scalar.isFinite (changes k) = true → ¬Outgrown changes k →
      Best diagonal changes (k + 1) (some (diagonal k, changes k)) →
      Judged o diagonal changes k best .steadier
  /-- The change is no infinity, and not within the tolerance, since the least one was not. -/
  | goOn : ¬Outgrown changes k → Running o changes (k + 1) → Best diagonal changes (k + 1) best →
      Judged o diagonal changes k best .goOn
  /-- The change is too large. -/
  | stop : Outgrown changes k → Best diagonal changes (k + 1) best →
      Judged o diagonal changes k best .stop

/-- What a judgement says as long as there is no finite change. -/
theorem judged_of_none (hk : 0 < k) (hrun : Running o changes k)
    (hbest : Best diagonal changes k none) :
    Judged o diagonal changes k none (judge (changes k) none) := by
  have houtgrown := hrun.outgrown_iff_of_none hbest
  cases hfinite : Scalar.isFinite (changes k) with
  | true =>
      have hjudge : judge (changes k) none = .steadier := by simp [judge, hfinite]
      have hnot : ¬Outgrown changes k := by simp [houtgrown, hfinite]
      exact hjudge ▸ .steadier hfinite hnot (hbest.first hk hfinite)
  | false =>
      cases hnan : Scalar.isNaN (changes k) with
      | true =>
          have hjudge : judge (changes k) none = .goOn := by simp [judge, hfinite, hnan]
          have hnot : ¬Outgrown changes k := by simp [houtgrown, hnan]
          have hnext : Running o changes (k + 1) := hrun.succ (.inl hnan) (by simp [hfinite])
          exact hjudge ▸ .goOn hnot hnext (hbest.keep hfinite)
      | false =>
          have hjudge : judge (changes k) none = .stop := by simp [judge, hfinite, hnan]
          exact hjudge ▸ .stop (houtgrown.2 ⟨hnan, hfinite⟩) (hbest.keep hfinite)

/-- What a judgement says against the least change so far. -/
theorem judged_of_some (hk : 0 < k) (hrun : Running o changes k) {b : ℕ}
    (hb : FirstLeast (fun x => Scalar.isFinite x = true) changes k b)
    (hnonneg : ∀ j, 0 < j → j ≤ k → Scalar.isNaN (changes j) = false →
      Scalar.le Scalar.zero (changes j) = true) :
    Judged o diagonal changes k (some (diagonal b, changes b))
      (judge (changes k) (some (changes b))) := by
  have houtgrown := hrun.outgrown_iff hb
  have hnumber := MeasuredScalar.isNaN_of_isFinite hb.holds
  have hdouble := MeasuredScalar.le_double (hnonneg b hb.pos hb.lt.le hnumber) hb.holds
  cases hlt : Scalar.lt (changes k) (changes b) with
  | true =>
      have hjudge : judge (changes k) (some (changes b)) = .steadier := by simp [judge, hlt]
      have hfinite := isFinite_of_lt (hnonneg k hk le_rfl) hb.holds hlt
      have hnot : ¬Outgrown changes k := by
        intro hout
        have hge := OrderedScalar.le_trans hdouble (houtgrown.1 hout)
        rw [(Scalar.lt_eq_true_iff.1 hlt).2] at hge
        cases hge
      exact hjudge ▸ .steadier hfinite hnot ⟨k, hb.replace hfinite hlt, rfl, rfl⟩
  | false =>
      have hkeep : Best diagonal changes (k + 1) (some (diagonal b, changes b)) :=
        ⟨b, hb.keep fun hfinite => Scalar.le_of_lt_eq_false hnumber
          (MeasuredScalar.isNaN_of_isFinite hfinite) hlt, rfl, rfl⟩
      cases hle : Scalar.le (Scalar.two * changes b) (changes k) with
      | true =>
          have hjudge : judge (changes k) (some (changes b)) = .stop := by simp [judge, hlt, hle]
          exact hjudge ▸ .stop (houtgrown.2 hle) hkeep
      | false =>
          have hjudge : judge (changes k) (some (changes b)) = .goOn := by simp [judge, hlt, hle]
          have hnot : ¬Outgrown changes k := by simp [houtgrown, hle]
          refine hjudge ▸ .goOn hnot (hrun.succ ?_ fun hfinite => ?_) hkeep
          · by_contra hinfinite
            rw [not_or, Bool.not_eq_true, Bool.not_eq_true] at hinfinite
            -- an infinite change would have been too large
            have hbound := MeasuredScalar.le_of_infinite
              (Scalar.isNaN_eq_false_iff.2 (OrderedScalar.le_self_of_le_right hdouble))
              (hnonneg k hk le_rfl hinfinite.1) hinfinite.2
            rw [hle] at hbound
            cases hbound
          · have hbk := Scalar.le_of_lt_eq_false hnumber
              (MeasuredScalar.isNaN_of_isFinite hfinite) hlt
            exact Scalar.lt_eq_false_of_le hbk (hrun.above b hb.pos hb.lt hb.holds)

/-- **What a judgement says** about the changes so far: the change is finite and the least one, or
it is too large, or it is neither. -/
theorem judged (hk : 0 < k) (hrun : Running o changes k) (hbest : Best diagonal changes k best)
    (hnonneg : ∀ j, 0 < j → j ≤ k → Scalar.isNaN (changes j) = false →
      Scalar.le Scalar.zero (changes j) = true) :
    Judged o diagonal changes k best (judge (changes k) (best.map (·.2))) := by
  cases best with
  | none => exact judged_of_none hk hrun hbest
  | some found =>
      obtain ⟨entry, least⟩ := found
      obtain ⟨b, hb, rfl, rfl⟩ := hbest
      exact judged_of_some hk hrun hb hnonneg

end Judge

/-! ### Levels -/

section Search

variable {o : DiffOptions α} {start : α} {values : ℕ → Supplied α} {diagonal : ℕ → Tensor α}
  {changes : ℕ → α} {n k : ℕ} {central : α → Action σ (Supplied α)} {machine : Machine}
  {w w' : World σ} {s : Search α}

/-- What a search knows that goes on after `k` levels. -/
structure Search.Knows (o : DiffOptions α) (start : α) (values : ℕ → Supplied α)
    (diagonal : ℕ → Tensor α) (changes : ℕ → α) (k : ℕ) (s : Search α) : Prop where
  row : Tableau.rowOver ((List.range k).map values) 2 o.riddersShrink = .ok s.row
  step : s.step = stepAt o start k
  newest : s.newest = if k = 0 then none else some (diagonal (k - 1))
  best : Best diagonal changes k s.best
  running : Running o changes k

theorem knows_start : Search.Knows o start values diagonal changes 0 ⟨[], start, none, none⟩ where
  row := rfl
  step := rfl
  newest := rfl
  best := fun _ _ hj => absurd hj (Nat.not_lt_zero _)
  running := ⟨fun _ _ hj => absurd hj (Nat.not_lt_zero _),
    fun _ _ hj => absurd hj (Nat.not_lt_zero _)⟩

/-- What is remembered is what is answered. -/
theorem picks_of_best (hnewest : s.newest = some (diagonal (k - 1)))
    (hbest : Best diagonal changes k s.best) : Picks diagonal changes k s.answer := by
  unfold Search.answer
  cases hb : s.best with
  | none =>
      rw [hb] at hbest
      exact .inr ⟨hbest, by rw [hnewest]; rfl⟩
  | some found =>
      rw [hb] at hbest
      obtain ⟨b, hleast, hentry, -⟩ := hbest
      exact .inl ⟨b, hleast, hentry⟩

/-- The first level of a search. -/
theorem perform_search_first {row : List (Tensor α)} {entry : Tensor α} {value : Supplied α}
    (hcall : (central s.step).perform machine w = (.ok value, w'))
    (hextend : Tableau.extend s.row value 2 o.riddersShrink = .ok row)
    (hentry : Tableau.diagonal row = entry) (hnewest : s.newest = none) (levels : ℕ) :
    (search central o (levels + 1) s).perform machine w =
      (search central o levels ⟨row, s.step / o.riddersShrink, some entry, s.best⟩).perform machine
        w' := by
  subst hentry
  rw [search, Action.perform_bind_of_ok hcall, Action.perform_ofExcept_bind hextend]
  simp only [hnewest]

/-- A later level of a search, as the judgement on the change has it. -/
theorem perform_search_later {row : List (Tensor α)} {entry older : Tensor α} {value : Supplied α}
    {c : α} (hcall : (central s.step).perform machine w = (.ok value, w'))
    (hextend : Tableau.extend s.row value 2 o.riddersShrink = .ok row)
    (hentry : Tableau.diagonal row = entry) (hnewest : s.newest = some older)
    (hchange : change entry older = .ok c) (levels : ℕ) :
    (search central o (levels + 1) s).perform machine w =
      let next : Search α := ⟨row, s.step / o.riddersShrink, some entry, s.best⟩
      match judge c (s.best.map (·.2)) with
      | .steadier =>
        if Scalar.lt c o.riddersTolerance then (.ok { next with best := some (entry, c) }, w')
        else (search central o levels { next with best := some (entry, c) }).perform machine w'
      | .goOn => (search central o levels next).perform machine w'
      | .stop => (.ok next, w') := by
  subst hentry
  rw [search, Action.perform_bind_of_ok hcall, Action.perform_ofExcept_bind hextend]
  simp only [hnewest]
  rw [Action.perform_ofExcept_bind hchange]
  cases judge c (s.best.map (·.2)) with
  | steadier =>
      simp only []
      split <;> rfl
  | goOn => rfl
  | stop => rfl

variable [MeasuredScalar α]

/-- A change is the largest magnitude among the differences of the entries, and zero where there
are none. -/
theorem isLargest_of_change {newer older : Tensor α} {c : α} (h : change newer older = .ok c) :
    ∃ difference, newer.zipWith (· - ·) older = .ok difference ∧
      Scalar.IsLargest (Scalar.zero :: difference.data.map Scalar.abs) c := by
  obtain ⟨difference, hdifference, hc⟩ := Except.bind_eq_ok_iff.1 h
  obtain rfl := Except.ok.inj hc
  exact ⟨difference, hdifference, Scalar.isLargest_largest _ _⟩

/-- Changes are not below zero. -/
theorem Levels.zero_le (h : Levels o values n diagonal changes) {j : ℕ} (hj : 0 < j) (hjn : j < n)
    (hnumber : Scalar.isNaN (changes j) = false) : Scalar.le Scalar.zero (changes j) = true := by
  obtain ⟨i, rfl⟩ := Nat.exists_eq_add_of_lt hj
  rw [Nat.zero_add] at hjn hnumber ⊢
  obtain ⟨_, -, hlargest⟩ := isLargest_of_change (h.change_eq i hjn)
  exact hlargest.le hnumber _ List.mem_cons_self

/-- **One level of a search** that goes on after `k` levels. Either it has a reason to stop, and
then it does and answers with what the levels pick; or it goes on after one level more. -/
theorem search_level (hlevels : Levels o values n diagonal changes) (hk : k < n)
    (hs : s.Knows o start values diagonal changes k)
    (hcall : (central (stepAt o start k)).perform machine w = (.ok (values k), w')) (levels : ℕ) :
    (0 < k ∧ Halts o changes (k + 1) ∧ ∃ last, (search central o (levels + 1) s).perform machine w =
      (.ok last, w') ∧ Picks diagonal changes (k + 1) last.answer) ∨
    ∃ next, (k = 0 ∨ ¬Halts o changes (k + 1)) ∧
      next.Knows o start values diagonal changes (k + 1) ∧
      (search central o (levels + 1) s).perform machine w =
        (search central o levels next).perform machine w' := by
  obtain ⟨row, hrow, hentry⟩ := hlevels.row k hk
  have hextend : Tableau.extend s.row (values k) 2 o.riddersShrink = .ok row := by
    rw [Tableau.rowOver_succ, hs.row] at hrow
    exact hrow
  rw [← hs.step] at hcall
  -- whatever is remembered, the rest of what is known is the same
  have hknows : ∀ best, Best diagonal changes (k + 1) best → Running o changes (k + 1) →
      Search.Knows o start values diagonal changes (k + 1)
        ⟨row, s.step / o.riddersShrink, some (diagonal k), best⟩ := fun best hbest hrun =>
    ⟨hrow, congrArg (· / o.riddersShrink) hs.step, rfl, hbest, hrun⟩
  cases k with
  | zero =>
      refine .inr ⟨_, .inl rfl, hknows s.best ?_ ?_,
        perform_search_first hcall hextend hentry.symm hs.newest levels⟩
      · have hbest := hs.best
        cases hb : s.best with
        | none => exact fun j hj hj1 => absurd hj1 (by omega)
        | some found =>
            rw [hb] at hbest
            obtain ⟨b, hleast, -⟩ := hbest
            exact absurd hleast.lt (Nat.not_lt_zero b)
      · exact ⟨fun j hj hj1 => absurd hj1 (by omega), fun j hj hj1 => absurd hj1 (by omega)⟩
  | succ i =>
      rw [perform_search_later hcall hextend hentry.symm hs.newest (hlevels.change_eq i hk)]
      have hjudged := judged i.succ_pos hs.running hs.best fun j hj hji hnumber =>
        hlevels.zero_le hj (hji.trans_lt hk) hnumber
      generalize judge (changes (i + 1)) (s.best.map (·.2)) = judgement at hjudged
      cases hjudged with
      | steadier hfinite hnot hbest =>
          cases hlt : Scalar.lt (changes (i + 1)) o.riddersTolerance with
          | true => exact .inl ⟨i.succ_pos, .inl ⟨hfinite, hlt⟩, _, rfl, picks_of_best rfl hbest⟩
          | false =>
              refine .inr ⟨_, .inr ?_,
                hknows _ hbest (hs.running.succ (.inr hfinite) fun _ => hlt), rfl⟩
              rintro (⟨-, hwithin⟩ | hout)
              · exact Bool.false_ne_true (hlt.symm.trans hwithin)
              · exact hnot hout
      | goOn hnot hrun hbest =>
          refine .inr ⟨_, .inr ?_, hknows _ hbest hrun, rfl⟩
          rintro (⟨hfinite, hwithin⟩ | hout)
          · exact Bool.false_ne_true
              ((hrun.above _ i.succ_pos (by omega) hfinite).symm.trans hwithin)
          · exact hnot hout
      | stop hout hbest => exact .inl ⟨i.succ_pos, .inr hout, _, rfl, picks_of_best rfl hbest⟩

/-- **A search gets to every level** before it stops, as far as the central differences on the way
can be taken. Induction on the level. -/
theorem search_reaches (hlevels : Levels o values n diagonal changes) {world : ℕ → World σ}
    {levels : ℕ} (hk : k ≤ n) (hkl : k ≤ levels) (hcalls : ∀ i < k,
      (central (stepAt o start i)).perform machine (world i) = (.ok (values i), world (i + 1)))
    (hgo : ∀ m, 2 ≤ m → m ≤ k → ¬Halts o changes m) :
    ∃ s, Search.Knows o start values diagonal changes k s ∧
      (search central o levels ⟨[], start, none, none⟩).perform machine (world 0) =
        (search central o (levels - k) s).perform machine (world k) := by
  induction k with
  | zero => exact ⟨_, knows_start, rfl⟩
  | succ k ih =>
      obtain ⟨s, hs, hsame⟩ := ih (by omega) (by omega) (fun i hi => hcalls i (by omega))
        fun m hm hmk => hgo m hm (by omega)
      rcases search_level hlevels hk hs (hcalls k k.lt_succ_self) (levels - (k + 1)) with
        ⟨hpos, hhalts, -⟩ | ⟨next, -, hnext, hlater⟩
      · exact absurd hhalts (hgo (k + 1) (by omega) le_rfl)
      · have hleft : levels - k = levels - (k + 1) + 1 := by omega
        exact ⟨next, hnext, by rw [hsame, hleft, hlater]⟩

/-- What is left of a search that gets to a level. -/
theorem perform_derivative_eq (hlevels : Levels o values k diagonal changes)
    (hk : k < o.riddersLevels) {world : ℕ → World σ} (hcalls : ∀ i < k,
      (central (stepAt o start i)).perform machine (world i) = (.ok (values i), world (i + 1)))
    (hgo : ∀ m, 2 ≤ m → m ≤ k → ¬Halts o changes m) :
    ∃ s, Search.Knows o start values diagonal changes k s ∧
      (derivative central start o).perform machine (world 0) =
        (search central o (o.riddersLevels - (k + 1) + 1) s >>= fun last =>
          pure last.answer).perform machine (world k) := by
  obtain ⟨s, hs, hsame⟩ := search_reaches hlevels le_rfl hk.le hcalls hgo
  have hleft : o.riddersLevels - k = o.riddersLevels - (k + 1) + 1 := by omega
  refine ⟨s, hs, ?_⟩
  unfold derivative
  rw [Action.perform_bind, hsame, hleft, ← Action.perform_bind]

/-- **A search stops where it has a reason to**, and answers with what the levels pick. -/
theorem perform_derivative {m : ℕ} (hm : StopsAfter o changes m)
    (hlevels : Levels o values m diagonal changes) {world : ℕ → World σ} (hcalls : ∀ i < m,
      (central (stepAt o start i)).perform machine (world i) = (.ok (values i), world (i + 1))) :
    ∃ answer, (derivative central start o).perform machine (world 0) = (.ok answer, world m) ∧
      Picks diagonal changes m answer := by
  obtain ⟨⟨htwo, hle, hreason⟩, hleast⟩ := hm
  obtain ⟨l, rfl⟩ : ∃ l, m = l + 1 := ⟨m - 1, by omega⟩
  have hgo : ∀ m, 2 ≤ m → m ≤ l → ¬Halts o changes m := fun m hm hml hhalts => by
    have := hleast ⟨hm, by omega, .inr hhalts⟩
    omega
  obtain ⟨s, hs, hsame⟩ := perform_derivative_eq (hlevels.mono l.le_succ) (by omega)
    (fun i hi => hcalls i (by omega)) hgo
  rw [hsame, Action.perform_bind]
  rcases search_level hlevels l.lt_succ_self hs (hcalls l l.lt_succ_self)
    (o.riddersLevels - (l + 1)) with ⟨-, -, last, hlast, hpicks⟩ | ⟨next, hgoes, hnext, hlater⟩
  · rw [hlast]
    exact ⟨_, rfl, hpicks⟩
  · -- the only reason left is the end of the levels
    have hend : l + 1 = o.riddersLevels := hreason.resolve_right fun hhalts => by
      rcases hgoes with hzero | hnot
      · omega
      · exact hnot hhalts
    rw [hlater, hend, Nat.sub_self]
    exact ⟨_, rfl, hend ▸ picks_of_best hnext.newest hnext.best⟩

/-- A central difference that cannot be taken ends a search that got to it. -/
theorem perform_derivative_of_error (hlevels : Levels o values k diagonal changes)
    (hk : k < o.riddersLevels) {world : ℕ → World σ} (hcalls : ∀ i < k,
      (central (stepAt o start i)).perform machine (world i) = (.ok (values i), world (i + 1)))
    (hgo : ∀ m, 2 ≤ m → m ≤ k → ¬Halts o changes m) {fault : Fault}
    (hfault : (central (stepAt o start k)).perform machine (world k) = (.error fault, w')) :
    (derivative central start o).perform machine (world 0) = (.error fault, w') := by
  obtain ⟨s, hs, hsame⟩ := perform_derivative_eq hlevels hk hcalls hgo
  rw [hsame, search, hs.step]
  exact Action.perform_bind_of_error (Action.perform_bind_of_error hfault)

/-- So does a row that cannot be made, after the central difference for it. -/
theorem perform_derivative_of_no_row (hlevels : Levels o values k diagonal changes)
    (hk : k < o.riddersLevels) {world : ℕ → World σ} (hcalls : ∀ i < k + 1,
      (central (stepAt o start i)).perform machine (world i) = (.ok (values i), world (i + 1)))
    (hgo : ∀ m, 2 ≤ m → m ≤ k → ¬Halts o changes m) {fault : Fault}
    (hrow : Tableau.rowOver ((List.range (k + 1)).map values) 2 o.riddersShrink = .error fault) :
    (derivative central start o).perform machine (world 0) = (.error fault, world (k + 1)) := by
  obtain ⟨s, hs, hsame⟩ := perform_derivative_eq hlevels hk (fun i hi => hcalls i (by omega)) hgo
  have hextend : Tableau.extend s.row (values k) 2 o.riddersShrink = .error fault := by
    rw [Tableau.rowOver_succ, hs.row] at hrow
    exact hrow
  rw [hsame, search, hs.step]
  refine Action.perform_bind_of_error ?_
  rw [Action.perform_bind_of_ok (hcalls k k.lt_succ_self), hextend]
  rfl

end Search

/-! ### Tableaus over estimates of one shape -/

section Tableau

variable {o : DiffOptions α} {values : ℕ → Supplied α} {shape : Shape} {n : ℕ}

/-- The row over estimates of one shape has an entry for each of them, of that shape. -/
theorem of_rowOver (hvalues : ∀ k < n, ∃ t, (values k).read = .ok t ∧ t.shape = shape)
    {row : List (Tensor α)}
    (h : Tableau.rowOver ((List.range n).map values) 2 o.riddersShrink = .ok row) :
    row.length = n ∧ ∀ t ∈ row, t.shape = shape := by
  induction n generalizing row with
  | zero =>
      obtain rfl := Except.ok.inj h
      exact ⟨rfl, nofun⟩
  | succ n ih =>
      rw [Tableau.rowOver_succ] at h
      obtain ⟨before, hbefore, h⟩ := Except.bind_eq_ok_iff.1 h
      obtain ⟨hlength, hshapes⟩ := ih (fun k hk => hvalues k (by omega)) hbefore
      obtain ⟨t, ht, hshape⟩ := hvalues n n.lt_succ_self
      obtain ⟨hlength', hshapes'⟩ := Tableau.of_extend ht hshape hshapes h
      exact ⟨by rw [hlength', hlength], hshapes'⟩

/-- Where there is a row there are the rows before it. -/
theorem exists_rowOver_of_le {row : List (Tensor α)}
    (h : Tableau.rowOver ((List.range n).map values) 2 o.riddersShrink = .ok row) {k : ℕ}
    (hk : k ≤ n) :
    ∃ row, Tableau.rowOver ((List.range k).map values) 2 o.riddersShrink = .ok row := by
  induction n generalizing row with
  | zero =>
      obtain rfl : k = 0 := by omega
      exact ⟨row, h⟩
  | succ n ih =>
      rcases Nat.lt_or_eq_of_le hk with hk | rfl
      · rw [Tableau.rowOver_succ] at h
        obtain ⟨before, hbefore, -⟩ := Except.bind_eq_ok_iff.1 h
        exact ih hbefore (by omega)
      · exact ⟨row, h⟩

/-- The one thing in the way of the next row is a power. -/
theorem of_rowOver_error (hvalues : ∀ k < n + 1, ∃ t, (values k).read = .ok t ∧ t.shape = shape)
    {row : List (Tensor α)}
    (hrow : Tableau.rowOver ((List.range n).map values) 2 o.riddersShrink = .ok row)
    {fault : Fault}
    (h : Tableau.rowOver ((List.range (n + 1)).map values) 2 o.riddersShrink = .error fault) :
    ∃ j : ℕ, 1 ≤ j ∧ j ≤ n ∧ Scalar.power o.riddersShrink (2 * j) = .error fault := by
  rw [Tableau.rowOver_succ, hrow] at h
  obtain ⟨hlength, hshapes⟩ := of_rowOver (fun k hk => hvalues k (by omega)) hrow
  obtain ⟨t, ht, hshape⟩ := hvalues n n.lt_succ_self
  exact hlength ▸ Tableau.of_extend_error ht hshape hshapes h

/-- Without a power in the way there is a row. -/
theorem exists_rowOver
    (hvalues : ∀ k < n, ∃ t, (values k).read = .ok t ∧ t.shape = shape)
    (hpowers : ∀ j : ℕ, 1 ≤ j → j < n → ∃ y, Scalar.power o.riddersShrink (2 * j) = .ok y) :
    ∃ row, Tableau.rowOver ((List.range n).map values) 2 o.riddersShrink = .ok row := by
  induction n with
  | zero => exact ⟨[], rfl⟩
  | succ n ih =>
      obtain ⟨row, hrow⟩ := ih (fun k hk => hvalues k (by omega))
        fun j hj hjn => hpowers j hj (by omega)
      cases hnext : Tableau.rowOver ((List.range (n + 1)).map values) 2 o.riddersShrink with
      | ok next => exact ⟨next, rfl⟩
      | error fault =>
          obtain ⟨j, hj, hle, hpower⟩ := of_rowOver_error hvalues hrow hnext
          obtain ⟨y, hy⟩ := hpowers j hj (by omega)
          rw [hy] at hpower
          cases hpower

/-- Where estimates of one shape have a row, they have a tableau. -/
theorem exists_levels_of_rowOver
    (hvalues : ∀ k < n, ∃ t, (values k).read = .ok t ∧ t.shape = shape) {row : List (Tensor α)}
    (h : Tableau.rowOver ((List.range n).map values) 2 o.riddersShrink = .ok row) :
    ∃ diagonal changes, Levels o values n diagonal changes := by
  have hrow : ∀ k, ∃ entry : Tensor α, k < n → entry.shape = shape ∧
      ∃ row, Tableau.rowOver ((List.range (k + 1)).map values) 2 o.riddersShrink = .ok row ∧
        entry = Tableau.diagonal row := by
    intro k
    by_cases hk : k < n
    · obtain ⟨row, hrow⟩ := exists_rowOver_of_le h hk
      obtain ⟨hlength, hshapes⟩ := of_rowOver (fun j hj => hvalues j (by omega)) hrow
      have hne : row ≠ [] := List.ne_nil_of_length_eq_add_one hlength
      exact ⟨_, fun _ => ⟨Tableau.shape_diagonal hne hshapes, row, hrow, rfl⟩⟩
    · exact ⟨.scalar Scalar.nan, fun h => absurd h hk⟩
  choose diagonal hdiagonal using hrow
  have hchange : ∀ k, ∃ c, k < n → 0 < k → change (diagonal k) (diagonal (k - 1)) = .ok c := by
    intro k
    by_cases hk : k < n
    · obtain ⟨c, hc⟩ := exists_change (hdiagonal k hk).1 (hdiagonal (k - 1) (by omega)).1
      exact ⟨c, fun _ _ => hc⟩
    · exact ⟨Scalar.nan, fun h => absurd h hk⟩
  choose changes hchanges using hchange
  exact ⟨diagonal, changes, fun k hk => (hdiagonal k hk).2,
    fun k hk => hchanges (k + 1) hk k.succ_pos⟩

/-- **Estimates of one shape have a tableau**, unless a power of the shrink factor is in the way. -/
theorem exists_levels (hvalues : ∀ k < n, ∃ t, (values k).read = .ok t ∧ t.shape = shape)
    (hpowers : ∀ j : ℕ, 1 ≤ j → j < n → ∃ y, Scalar.power o.riddersShrink (2 * j) = .ok y) :
    ∃ diagonal changes, Levels o values n diagonal changes := by
  obtain ⟨row, hrow⟩ := exists_rowOver hvalues hpowers
  exact exists_levels_of_rowOver hvalues hrow

end Tableau

/-! ### What the levels pick -/

theorem Picks.unique {diagonal : ℕ → Tensor α} {changes : ℕ → α} {m : ℕ} {t u : Tensor α}
    (ht : Picks diagonal changes m t) (hu : Picks diagonal changes m u) : t = u := by
  have hfinite : ∀ {b}, FirstLeast (fun x => Scalar.isFinite x = true) changes m b →
      ¬∀ j, 0 < j → j < m → Scalar.isFinite (changes j) = false := by
    intro b hb hnone
    have hfalse := hnone b hb.pos hb.lt
    rw [hb.holds] at hfalse
    cases hfalse
  rcases ht with ⟨b, hb, rfl⟩ | ⟨hnone, rfl⟩ <;> rcases hu with ⟨b', hb', rfl⟩ | ⟨hnone', rfl⟩
  · rw [hb.unique hb']
  · exact absurd hnone' (hfinite hb)
  · exact absurd hnone (hfinite hb')
  · rfl

/-- There always is something to remember. -/
theorem exists_best [MeasuredScalar α] (diagonal : ℕ → Tensor α) (changes : ℕ → α) (k : ℕ) :
    ∃ best, Best diagonal changes k best := by
  induction k with
  | zero => exact ⟨none, fun _ _ hj => absurd hj (Nat.not_lt_zero _)⟩
  | succ k ih =>
      obtain ⟨best, hbest⟩ := ih
      rcases Nat.eq_zero_or_pos k with rfl | hpos
      · exact ⟨none, fun j hj hj1 => absurd hj1 (by omega)⟩
      cases hfinite : Scalar.isFinite (changes k) with
      | false => exact ⟨best, hbest.keep hfinite⟩
      | true =>
          cases best with
          | none => exact ⟨_, hbest.first hpos hfinite⟩
          | some found =>
              obtain ⟨b, hb, hfound⟩ := hbest
              cases hlt : Scalar.lt (changes k) (changes b) with
              | true => exact ⟨some (diagonal k, changes k), k, hb.replace hfinite hlt, rfl, rfl⟩
              | false =>
                  have hnumber := MeasuredScalar.isNaN_of_isFinite hb.holds
                  exact ⟨some found, b, hb.keep fun _ => Scalar.le_of_lt_eq_false hnumber
                    (MeasuredScalar.isNaN_of_isFinite hfinite) hlt, hfound⟩

/-- The levels always pick an entry. -/
theorem exists_picks [MeasuredScalar α] (diagonal : ℕ → Tensor α) (changes : ℕ → α) (m : ℕ) :
    ∃ answer, Picks diagonal changes m answer := by
  obtain ⟨best, hbest⟩ := exists_best diagonal changes m
  exact ⟨_, picks_of_best (s := ⟨[], Scalar.nan, some (diagonal (m - 1)), best⟩) rfl hbest⟩

/-! ### The loop and its description -/

/-- **A search computes what the changes of its tableau determine.** Let the central differences at
the steps of all levels be given, as arrays of one shape, and let the powers of the shrink factor be
numbers. Then a search takes the first `m` of the central differences, in order and once each, and
answers with an entry of the diagonal. The number `m` is the least one from two on at which there
are no more levels, or at which the latest change is finite and below the tolerance, or at least
twice the least one before. The entry is the first one with the least finite change, and the latest
one if there is none. -/
theorem derivative_computes [MeasuredScalar α] {view : σ → List ε}
    {central : α → Action σ (Supplied α)} {o : DiffOptions α} {start : α} {values : ℕ → Supplied α}
    {deeds : ℕ → List ε} {shape : Shape}
    (hvalues : ∀ k < o.riddersLevels, ∃ t, (values k).read = .ok t ∧ t.shape = shape)
    (hpowers : ∀ j : ℕ, 1 ≤ j → j < o.riddersLevels →
      ∃ y, Scalar.power o.riddersShrink (2 * j) = .ok y)
    (hcentral : ∀ k < o.riddersLevels,
      (central (stepAt o start k)).Does view (.ok (values k)) (deeds k)) :
    ∃ diagonal changes m answer,
      Levels o values o.riddersLevels diagonal changes ∧
      (∀ k, k + 1 < o.riddersLevels → ∃ difference,
        (diagonal (k + 1)).zipWith (· - ·) (diagonal k) = .ok difference ∧
        Scalar.IsLargest (Scalar.zero :: difference.data.map Scalar.abs) (changes (k + 1))) ∧
      StopsAfter o changes m ∧ Picks diagonal changes m answer ∧
      (derivative central start o).Does view (.ok answer) ((List.range m).flatMap deeds) := by
  obtain ⟨diagonal, changes, hlevels⟩ := exists_levels hvalues hpowers
  obtain ⟨m, hm⟩ := exists_stopsAfter o changes
  have hle : m ≤ o.riddersLevels := hm.1.2.1
  obtain ⟨answer, hpicks⟩ := exists_picks diagonal changes m
  refine ⟨diagonal, changes, m, answer, hlevels,
    fun k hk => isLargest_of_change (hlevels.change_eq k hk), hm, hpicks, fun machine w => ?_⟩
  -- the worlds between the central differences
  let world : ℕ → World σ := Nat.rec w fun i w =>
    ((central (stepAt o start i)).perform machine w).2
  have hcalls : ∀ i < m, (central (stepAt o start i)).perform machine (world i) =
      (.ok (values i), world (i + 1)) := fun i hi =>
    eq_mk_of_fst (hcentral i (by omega) machine (world i)).1
  have hview : ∀ i ≤ m, view (world i).shared =
      view w.shared ++ (List.range i).flatMap deeds := by
    intro i
    induction i with
    | zero => exact fun _ => (List.append_nil _).symm
    | succ i ih =>
        intro hi
        have hdone := (hcentral i (by omega) machine (world i)).2
        rw [List.range_succ, List.flatMap_append, ← List.append_assoc, ← ih (by omega)]
        simpa using hdone
  obtain ⟨answer', hperform, hpicks'⟩ := perform_derivative hm (hlevels.mono hle) hcalls
  obtain rfl := hpicks.unique hpicks'
  exact ⟨congrArg Prod.fst hperform, (congrArg (fun p => view p.2.shared) hperform).trans
    (hview m le_rfl)⟩

/-- A central difference that leaves its step behind in a log. -/
def loggedSquare (step : Float) : Action (List Float) (Supplied Float) := do
  Action.modifyShared fun log => ((), log ++ [step])
  return .vector [step * step, 1.0]

/-- What it answers with at the steps of all levels from `0.5` on. -/
def loggedSquares (k : ℕ) : Supplied Float :=
  .vector [stepAt DiffOptions.standard 0.5 k * stepAt DiffOptions.standard 0.5 k, 1.0]

theorem derivative_computes_loggedSquare :
    ∃ diagonal changes m answer,
      Levels DiffOptions.standard loggedSquares 10 diagonal changes ∧
      StopsAfter DiffOptions.standard changes m ∧ Picks diagonal changes m answer ∧
      (derivative loggedSquare 0.5 DiffOptions.standard).Does id (.ok answer)
        ((List.range m).map (stepAt DiffOptions.standard 0.5)) := by
  have hvalues : ∀ k < DiffOptions.standard.riddersLevels,
      ∃ t, (loggedSquares k).read = .ok t ∧ t.shape = [2] := fun k _ => ⟨_, rfl, rfl⟩
  have hall : ∀ j ∈ List.range 10,
      (Scalar.power DiffOptions.standard.riddersShrink (2 * j)).toOption.isSome = true := by
    decide +kernel
  have hpowers : ∀ j : ℕ, 1 ≤ j → j < DiffOptions.standard.riddersLevels →
      ∃ y, Scalar.power DiffOptions.standard.riddersShrink (2 * j) = .ok y := by
    intro j _ hj
    have hpower := hall j (List.mem_range.2 hj)
    cases h : Scalar.power DiffOptions.standard.riddersShrink (2 * j) with
    | ok y => exact ⟨y, rfl⟩
    | error fault =>
        rw [h] at hpower
        cases hpower
  have hcentral : ∀ k < DiffOptions.standard.riddersLevels,
      (loggedSquare (stepAt DiffOptions.standard 0.5 k)).Does id (.ok (loggedSquares k))
        [stepAt DiffOptions.standard 0.5 k] := fun k _ machine w => ⟨rfl, rfl⟩
  obtain ⟨diagonal, changes, m, answer, hlevels, -, hm, hpicks, hdoes⟩ :=
    derivative_computes hvalues hpowers hcentral
  refine ⟨diagonal, changes, m, answer, hlevels, hm, hpicks, ?_⟩
  rw [List.map_eq_flatMap]
  exact hdoes

end Ridders

end JacobianAudit
