/-
**Outcomes that are certain.**

Where it is known beforehand what the callers' functions answer, it is known what a computation
answers, whatever the machine and the world are, and how often it calls them. This module states
that as a judgement on actions, with a meter on the callers' state to count the calls, and follows
it through sequences and through a pool of workers.

Main definitions:

* `JacobianAudit.Action.Gives` — an action is certain to answer with a value, at a cost.

Main results:

* `JacobianAudit.Action.Gives.bind`, `JacobianAudit.Action.Gives.mapM` — the costs of a sequence
  add up;
* `JacobianAudit.Workers.run_gives` — **tasks with certain outcomes give the list of them**, on
  however many workers and in whatever order they are run.
-/

import Mathlib.Data.List.Range
import Mathlib.Order.Lattice
import JacobianAudit.Proofs.Runs
import JacobianAudit.Workers.Pool

set_option autoImplicit false

namespace JacobianAudit

namespace Action

variable {σ β γ : Type} {meter : σ → ℕ}

/-- On every machine and from every world the action answers with a value and raises the meter by
its cost. -/
def Gives (meter : σ → ℕ) (a : Action σ β) (x : β) (cost : ℕ) : Prop :=
  ∀ machine w, ∃ w', a.perform machine w = (.ok x, w') ∧
    meter w'.shared = meter w.shared + cost

namespace Gives

theorem pure (x : β) : (pure x : Action σ β).Gives meter x 0 := fun _ w => ⟨w, rfl, rfl⟩

theorem ofExcept {answer : Except Fault β} {x : β} (h : answer = .ok x) :
    (Action.ofExcept answer : Action σ β).Gives meter x 0 := by
  subst h
  exact pure x

theorem bind {a : Action σ β} {f : β → Action σ γ} {x : β} {y : γ} {m n : ℕ}
    (ha : a.Gives meter x m) (hf : (f x).Gives meter y n) :
    (a >>= f).Gives meter y (m + n) := by
  intro machine w
  obtain ⟨w₁, h₁, hm⟩ := ha machine w
  obtain ⟨w₂, h₂, hn⟩ := hf machine w₁
  refine ⟨w₂, perform_bind_eq_ok_iff.2 ⟨x, w₁, h₁, h₂⟩, ?_⟩
  omega

/-- A sequence whose first part costs nothing. -/
theorem bind_free {a : Action σ β} {f : β → Action σ γ} {x : β} {y : γ} {n : ℕ}
    (ha : a.Gives meter x 0) (hf : (f x).Gives meter y n) : (a >>= f).Gives meter y n := by
  have h := ha.bind hf
  rwa [Nat.zero_add] at h

/-- What is done with the answer costs nothing. -/
theorem bind_pure {a : Action σ β} {x : β} {n : ℕ} (ha : a.Gives meter x n) (f : β → γ) :
    (a >>= fun x => Pure.pure (f x)).Gives meter (f x) n := by
  have h := ha.bind (f := fun x => Pure.pure (f x)) (pure (f x))
  rwa [Nat.add_zero] at h

theorem isolated {a : Action σ β} {x : β} {n : ℕ} (ha : a.Gives meter x n) :
    a.isolated.Gives meter x n := by
  intro machine w
  obtain ⟨w', h, hn⟩ := ha machine w
  rw [perform_isolated, h]
  exact ⟨_, rfl, hn⟩

theorem attempt {a : Action σ β} {x : β} {n : ℕ} (ha : a.Gives meter x n) :
    a.attempt.Gives meter (.ok x) n := by
  intro machine w
  obtain ⟨w', h, hn⟩ := ha machine w
  rw [perform_attempt, h]
  exact ⟨_, rfl, hn⟩

/-- Questions that cost the same each. -/
theorem mapM {f : γ → Action σ β} {g : γ → β} {cost : ℕ} {xs : List γ}
    (h : ∀ x ∈ xs, (f x).Gives meter (g x) cost) :
    (xs.mapM f).Gives meter (xs.map g) (xs.length * cost) := by
  induction xs with
  | nil =>
      rw [List.mapM_nil, List.length_nil, Nat.zero_mul]
      exact pure []
  | cons x xs ih =>
      rw [List.mapM_cons, List.length_cons, Nat.succ_mul, Nat.add_comm]
      have hrest := ih fun y hy => h y (List.mem_cons_of_mem x hy)
      exact (h x List.mem_cons_self).bind (hrest.bind_pure fun ys => g x :: ys)

end Gives

end Action

/-! ### Pools of workers -/

namespace Workers

variable {σ β : Type} {meter : σ → ℕ} {n cost : ℕ} {tasks : ℕ → Action σ β} {outcome : ℕ → β}

theorem arrange_range {order : List ℕ} (h : ∀ i ∈ order, i < n) :
    arrange ((List.range n).map tasks) order = order.map fun i => (i, tasks i) := by
  unfold arrange
  induction order with
  | nil => rfl
  | cons i order ih =>
      have hi : ((List.range n).map tasks)[i]? = some (tasks i) := by
        rw [List.getElem?_map, List.getElem?_range (h i List.mem_cons_self), Option.map_some]
      rw [List.filterMap_cons, hi, ih fun j hj => h j (List.mem_cons_of_mem i hj)]
      rfl

/-- An answer does not come after another one. -/
def notAfter (a b : ℕ × Except Fault β) : Bool := a.1 ≤ b.1

/-- In whatever order numbered answers come, they are sorted into the order of the tasks. -/
theorem mergeSort_map (answer : ℕ → Except Fault β) {order : List ℕ}
    (h : order.Perm (List.range n)) :
    (order.map fun i => (i, answer i)).mergeSort notAfter =
      (List.range n).map fun i => (i, answer i) := by
  have hperm : ((order.map fun i => (i, answer i)).mergeSort notAfter).Perm
      ((List.range n).map fun i => (i, answer i)) :=
    (List.mergeSort_perm _ _).trans (h.map _)
  refine List.Perm.eq_of_pairwise ?_ (List.pairwise_mergeSort ?_ ?_ _) ?_ hperm
  · -- answers with the same number are the same
    intro a b ha hb hab hba
    obtain ⟨i, _, rfl⟩ := List.mem_map.1 (List.mem_mergeSort.1 ha)
    obtain ⟨j, _, rfl⟩ := List.mem_map.1 hb
    obtain rfl : i = j := Nat.le_antisymm (of_decide_eq_true hab) (of_decide_eq_true hba)
    rfl
  · intro a b c hab hbc
    exact decide_eq_true (Nat.le_trans (of_decide_eq_true hab) (of_decide_eq_true hbc))
  · intro a b
    rcases Nat.le_total a.1 b.1 with hab | hba
    · simp [notAfter, hab]
    · simp [notAfter, hba]
  · rw [List.pairwise_map]
    exact List.pairwise_lt_range.imp fun hij => decide_eq_true (Nat.le_of_lt hij)

/-- The answers, put back into the order of the tasks. -/
theorem collect_map (answer : ℕ → Except Fault β) {order : List ℕ}
    (h : order.Perm (List.range n)) :
    collect (order.map fun i => (i, answer i)) = (List.range n).mapM answer := by
  show ((order.map fun i => (i, answer i)).mergeSort notAfter).mapM Prod.snd = _
  rw [mergeSort_map answer h, List.mapM_map]
  rfl

/-- The answers with their numbers. -/
def numbered (outcome : ℕ → β) (order : List ℕ) : List (ℕ × Except Fault β) :=
  order.map fun i => (i, .ok (outcome i))

theorem collect_numbered {order : List ℕ} (h : order.Perm (List.range n)) :
    collect (numbered outcome order) = .ok ((List.range n).map outcome) := by
  rw [numbered, collect_map _ h, Except.mapM_eq_ok_iff_getElem]
  exact ⟨by simp, fun i hi hi' => by simp⟩

/-- Where the setting asks for some number of workers, some number is used. -/
theorem exists_resolve {setting : Setting} (hs : ∃ k, requested setting = .ok k)
    (machine : Machine) (n : ℕ) : ∃ k, resolve machine setting (.count n) = .ok k := by
  obtain ⟨k, hk⟩ := hs
  unfold resolve
  rw [hk]
  simp only [bind, Except.bind, pure, Except.pure, Setting.atMost_whole, Setting.toInt_whole]
  split
  · exact ⟨1, rfl⟩
  · split
    · exact ⟨1, rfl⟩
    · exact ⟨_, rfl⟩

/-- Isolation and attempts make no difference to outcomes that are certain. -/
theorem inPool_gives (machine : Machine)
    (h : ∀ i < n, (tasks i).Gives meter (outcome i) cost) :
    (inPool ((machine.order n).map fun i => (i, tasks i))).Gives meter
      (numbered outcome (machine.order n)) (n * cost) := by
  have hone : ∀ i ∈ machine.order n,
      ((tasks i).isolated.attempt >>= fun answer => pure (i, answer)).Gives meter
        (i, Except.ok (outcome i)) cost := by
    intro i hi
    have hlt : i < n := List.mem_range.1 ((machine.order_perm n).subset hi)
    exact (h i hlt).isolated.attempt.bind_pure fun answer => (i, answer)
  have hpool := Action.Gives.mapM hone
  rw [(machine.order_perm n).length_eq, List.length_range] at hpool
  unfold inPool
  rw [List.mapM_map]
  exact hpool

/-- Tasks whose outcomes are certain, one after the other or in a pool. -/
theorem run_gives {setting : Setting} (hs : ∃ k, requested setting = .ok k)
    (h : ∀ i < n, (tasks i).Gives meter (outcome i) cost) :
    (run setting ((List.range n).map tasks)).Gives meter ((List.range n).map outcome)
      (n * cost) := by
  intro machine w
  have hlength : ((List.range n).map tasks).length = n := by
    rw [List.length_map, List.length_range]
  have horder : ∀ i ∈ machine.order n, i < n := fun i hi =>
    List.mem_range.1 ((machine.order_perm n).subset hi)
  obtain ⟨workers, hworkers⟩ := exists_resolve hs machine n
  unfold run
  rw [Action.perform_read_bind, hlength, Action.perform_ofExcept_bind hworkers]
  by_cases hpool : 1 < workers
  · -- whatever the machine's order is, the answers are collected in the order of the tasks
    rw [if_pos hpool, arrange_range horder]
    exact (inPool_gives machine h).bind (f := fun answers => Action.ofExcept (collect answers))
      (.ofExcept (collect_numbered (machine.order_perm n))) machine w
  · rw [if_neg hpool, List.mapM_map]
    have hserial := Action.Gives.mapM (f := id ∘ tasks) (g := outcome)
      fun i (hi : i ∈ List.range n) => h i (List.mem_range.1 hi)
    rw [List.length_range] at hserial
    exact hserial machine w

end Workers

end JacobianAudit
