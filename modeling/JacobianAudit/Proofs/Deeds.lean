/-
**What an action does wherever it is run.**

Some actions do the same on every machine and from every world: they answer the same, and whatever
they add to a log on the callers' side, they add the same. This module follows such actions through
a run of tasks, in turn and in a pool, and says which of the tasks' deeds are done and which of
their answers counts.

Main definitions:

* `JacobianAudit.Action.Does` — what an action answers, and what it adds to a log;
* `JacobianAudit.Workers.doneInTurn` — the deeds of tasks up to the first one with a fault;
* `JacobianAudit.Workers.Shuffles` — the deeds of tasks that overlap.

Main results:

* `JacobianAudit.Action.Does.inTurn`, `JacobianAudit.Action.Does.inPool` — tasks in turn and in a
  pool;
* `JacobianAudit.Workers.run_does` — **a run of tasks**: the answer is the same in both cases, and
  what is done is not;
* `JacobianAudit.Workers.shuffles_flatMap` — whole tasks in any order shuffle their deeds.
-/

import JacobianAudit.Proofs.Outcomes

set_option autoImplicit false

namespace JacobianAudit

variable {σ β γ ε : Type} {view : σ → List ε}

namespace Action

/-- On every machine and from every world the action answers so, and adds so much to the log. -/
def Does (view : σ → List ε) (a : Action σ β) (answer : Except Fault β) (deeds : List ε) : Prop :=
  ∀ machine w, (a.perform machine w).1 = answer ∧
    view (a.perform machine w).2.shared = view w.shared ++ deeds

namespace Does

theorem pure (x : β) : (Pure.pure x : Action σ β).Does view (.ok x) [] :=
  fun _ w => ⟨rfl, (List.append_nil (view w.shared)).symm⟩

theorem ofExcept (answer : Except Fault β) :
    (Action.ofExcept answer : Action σ β).Does view answer [] := by
  intro machine w
  rw [perform_ofExcept]
  exact ⟨rfl, (List.append_nil (view w.shared)).symm⟩

theorem bind {a : Action σ β} {f : β → Action σ γ} {x : β} {answer : Except Fault γ}
    {deeds more : List ε} (ha : a.Does view (.ok x) deeds) (hf : (f x).Does view answer more) :
    (a >>= f).Does view answer (deeds ++ more) := by
  intro machine w
  obtain ⟨hx, hdeeds⟩ := ha machine w
  rw [perform_bind_of_ok (eq_mk_of_fst hx), ← List.append_assoc, ← hdeeds]
  exact hf machine _

theorem bind_error {a : Action σ β} {f : β → Action σ γ} {fault : Fault} {deeds : List ε}
    (ha : a.Does view (.error fault) deeds) : (a >>= f).Does view (.error fault) deeds := by
  intro machine w
  obtain ⟨hx, hdeeds⟩ := ha machine w
  rw [perform_bind_of_error (eq_mk_of_fst hx)]
  exact ⟨rfl, hdeeds⟩

/-- What is done with the answer adds nothing. -/
theorem bind_pure {a : Action σ β} {answer : Except Fault β} {deeds : List ε}
    (ha : a.Does view answer deeds) (f : β → γ) :
    (a >>= fun x => Pure.pure (f x)).Does view (answer.map f) deeds := by
  cases answer with
  | error fault => exact ha.bind_error
  | ok x =>
      have h := ha.bind (f := fun x => Pure.pure (f x)) (pure (f x))
      rwa [List.append_nil] at h

theorem attempt {a : Action σ β} {answer : Except Fault β} {deeds : List ε}
    (ha : a.Does view answer deeds) : a.attempt.Does view (.ok answer) deeds := by
  intro machine w
  obtain ⟨hx, hdeeds⟩ := ha machine w
  rw [perform_attempt, hx]
  exact ⟨rfl, hdeeds⟩

theorem isolated {a : Action σ β} {answer : Except Fault β} {deeds : List ε}
    (ha : a.Does view answer deeds) : a.isolated.Does view answer deeds := by
  intro machine w
  obtain ⟨hx, hdeeds⟩ := ha machine w
  rw [perform_isolated, hx]
  exact ⟨rfl, hdeeds⟩

end Does

end Action

/-! ### Running tasks -/

namespace Workers

/-- The deeds of tasks that are run in turn: those of each task up to the first one with a fault,
its own included. -/
def doneInTurn : List (Except Fault β × List ε) → List ε
  | [] => []
  | (.ok _, deeds) :: rest => deeds ++ doneInTurn rest
  | (.error _, deeds) :: _ => deeds

/-- The lists are put together to one, each of whose items is the next one of some list. -/
inductive Shuffles : List (List ε) → List ε → Prop
  | done {lists : List (List ε)} : (∀ list ∈ lists, list = []) → Shuffles lists []
  | next {lists : List (List ε)} {i : ℕ} {x : ε} {rest all : List ε} :
      lists[i]? = some (x :: rest) → Shuffles (lists.set i rest) all → Shuffles lists (x :: all)

/-- One of the lists may come first, and whole. -/
theorem Shuffles.append {lists : List (List ε)} {i : ℕ} {first all : List ε}
    (hi : lists[i]? = some first) (h : Shuffles (lists.set i []) all) :
    Shuffles lists (first ++ all) := by
  induction first generalizing lists with
  | nil =>
      obtain ⟨hlt, hget⟩ := List.getElem?_eq_some_iff.1 hi
      rwa [← hget, List.set_getElem_self] at h
  | cons x rest ih =>
      obtain ⟨hlt, -⟩ := List.getElem?_eq_some_iff.1 hi
      refine .next hi (ih (List.getElem?_set_self hlt) ?_)
      rwa [List.set_set]

/-- Lists one after the other are shuffled, if no other list has any items. Induction on the lists
that are left: those that have been used up are empty. -/
theorem Shuffles.of_order {lists : List (List ε)} {order : List ℕ} (hnodup : order.Nodup)
    (hlt : ∀ i ∈ order, i < lists.length)
    (hother : ∀ (i : ℕ) (hi : i < lists.length), i ∉ order → lists[i] = []) :
    Shuffles lists (order.flatMap fun i => lists[i]?.getD []) := by
  induction order generalizing lists with
  | nil =>
      refine .done fun list hlist => ?_
      obtain ⟨i, hi, rfl⟩ := List.mem_iff_getElem.1 hlist
      exact hother i hi List.not_mem_nil
  | cons i order ih =>
      obtain ⟨hnew, hnodup⟩ := List.nodup_cons.1 hnodup
      have hi := hlt i List.mem_cons_self
      have hrest : Shuffles (lists.set i [])
          (order.flatMap fun j => (lists.set i [])[j]?.getD []) := by
        refine ih hnodup (fun j hj => ?_) fun j hj hnot => ?_
        · rw [List.length_set]
          exact hlt j (List.mem_cons_of_mem i hj)
        · rw [List.getElem_set]
          split
          · rfl
          · rename_i hne
            refine hother j (by simpa using hj) ?_
            rw [List.mem_cons]
            exact not_or.2 ⟨Ne.symm hne, hnot⟩
      have hsame : (order.flatMap fun j => (lists.set i [])[j]?.getD []) =
          order.flatMap fun j => lists[j]?.getD [] := by
        refine List.flatMap_congr fun j hj => ?_
        have hne : i ≠ j := fun hij => hnew (hij ▸ hj)
        rw [List.getElem?_set_ne hne]
      rw [List.flatMap_cons, List.getElem?_eq_getElem hi, Option.getD_some]
      rw [hsame] at hrest
      exact hrest.append (List.getElem?_eq_getElem hi)

/-- **Whole tasks in any order shuffle their deeds.** -/
theorem shuffles_flatMap {n : ℕ} {order : List ℕ} (horder : order.Perm (List.range n))
    (deeds : ℕ → List ε) : Shuffles ((List.range n).map deeds) (order.flatMap deeds) := by
  have hlt : ∀ i ∈ order, i < n := fun i hi => List.mem_range.1 (horder.subset hi)
  have h : Shuffles ((List.range n).map deeds)
      (order.flatMap fun i => ((List.range n).map deeds)[i]?.getD []) := by
    refine .of_order (horder.nodup_iff.2 List.nodup_range) (by simpa using hlt) ?_
    intro i hi hnot
    exact absurd (horder.symm.subset (List.mem_range.2 (by simpa using hi))) hnot
  have hsame : (order.flatMap fun i => ((List.range n).map deeds)[i]?.getD []) =
      order.flatMap deeds := by
    refine List.flatMap_congr fun i hi => ?_
    simp [hlt i hi]
  rwa [hsame] at h

/-- The first fault in a list of answers counts. -/
theorem mapM_eq_error {answer : ℕ → Except Fault β} {n i : ℕ} {fault : Fault} (hi : i < n)
    (hbefore : ∀ j < i, ∃ x, answer j = .ok x) (h : answer i = .error fault) :
    (List.range n).mapM answer = .error fault := by
  obtain ⟨rest, rfl⟩ := Nat.exists_eq_add_of_lt hi
  have hok : ∃ xs, (List.range i).mapM answer = .ok xs :=
    (Except.exists_mapM_eq_ok (r := fun _ _ => True) fun j hj =>
      (hbefore j (List.mem_range.1 hj)).imp fun x hx => ⟨hx, trivial⟩).imp fun _ h => h.1
  obtain ⟨xs, hxs⟩ := hok
  have hsplit : List.range (i + rest + 1) =
      List.range i ++ i :: (List.range rest).map (i + 1 + ·) := by
    rw [Nat.add_right_comm, List.range_add, List.range_succ, List.append_assoc,
      List.singleton_append]
  rw [hsplit, List.mapM_append, hxs, List.mapM_cons, h]
  rfl

end Workers

namespace Action.Does

variable {n : ℕ} {tasks : ℕ → Action σ β} {outcome : ℕ → Except Fault β × List ε}

/-- Tasks in turn. Induction on the tasks. -/
theorem inTurn {is : List ℕ} (h : ∀ i ∈ is, (tasks i).Does view (outcome i).1 (outcome i).2) :
    (is.mapM tasks).Does view (is.mapM fun i => (outcome i).1)
      (Workers.doneInTurn (is.map outcome)) := by
  induction is with
  | nil => exact pure []
  | cons i is ih =>
      rw [List.mapM_cons, List.mapM_cons, List.map_cons]
      have hfirst := h i List.mem_cons_self
      have hrest := ih fun j hj => h j (List.mem_cons_of_mem i hj)
      rcases houtcome : outcome i with ⟨fault | x, deeds⟩ <;> rw [houtcome] at hfirst
      · exact hfirst.bind_error
      · have hanswer : (is.mapM fun i => (outcome i).1).map (x :: ·) =
            (do return x :: (← is.mapM fun i => (outcome i).1)) := by
          cases is.mapM fun i => (outcome i).1 <;> rfl
        have hbind := hfirst.bind (f := fun y => is.mapM tasks >>= fun ys => Pure.pure (y :: ys))
          (hrest.bind_pure (x :: ·))
        rw [hanswer] at hbind
        exact hbind

/-- Tasks in a pool, in a given order: each of them to its end. -/
theorem inPool {order : List ℕ}
    (h : ∀ i ∈ order, (tasks i).Does view (outcome i).1 (outcome i).2) :
    (Workers.inPool (order.map fun i => (i, tasks i))).Does view
      (.ok (order.map fun i => (i, (outcome i).1))) (order.flatMap fun i => (outcome i).2) := by
  unfold Workers.inPool
  rw [List.mapM_map]
  induction order with
  | nil => exact pure []
  | cons i order ih =>
      rw [List.mapM_cons, List.map_cons, List.flatMap_cons]
      have hfirst := (h i List.mem_cons_self).isolated.attempt.bind_pure fun answer => (i, answer)
      have hrest := ih fun j hj => h j (List.mem_cons_of_mem i hj)
      exact hfirst.bind (hrest.bind_pure ((i, (outcome i).1) :: ·))

end Action.Does

namespace Workers

variable {n : ℕ} {tasks : ℕ → Action σ β} {outcome : ℕ → Except Fault β × List ε}

/-- Without an end to the workers that are asked for, no task is run. -/
theorem run_of_requested_error {setting : Setting} {fault : Fault}
    (h : requested setting = .error fault) (tasks : List (Action σ β)) (machine : Machine)
    (w : World σ) : (run setting tasks).perform machine w = (.error fault, w) := by
  have hresolve : resolve machine setting (.count tasks.length) = .error fault := by
    rw [resolve, h]
    rfl
  unfold run
  rw [Action.perform_read_bind, hresolve]
  rfl

/-- **A run of tasks** that do the same wherever they are run. The answer is the list of answers, or
the first fault in the order of the tasks. A pool does all that the tasks do, in the order in which
the machine runs them; in turn, nothing is done after the first fault. -/
theorem run_does {setting : Setting} (hs : ∃ k, requested setting = .ok k)
    (h : ∀ i < n, (tasks i).Does view (outcome i).1 (outcome i).2) (machine : Machine)
    (w : World σ) :
    ∃ workers, resolve machine setting (.count n) = .ok workers ∧
      ((run setting ((List.range n).map tasks)).perform machine w).1 =
        (List.range n).mapM (fun i => (outcome i).1) ∧
      view ((run setting ((List.range n).map tasks)).perform machine w).2.shared =
        view w.shared ++ if 1 < workers then (machine.order n).flatMap fun i => (outcome i).2
          else doneInTurn ((List.range n).map outcome) := by
  have hlength : ((List.range n).map tasks).length = n := by
    rw [List.length_map, List.length_range]
  have horder : ∀ i ∈ machine.order n, i < n := fun i hi =>
    List.mem_range.1 ((machine.order_perm n).subset hi)
  obtain ⟨workers, hworkers⟩ := exists_resolve hs machine n
  refine ⟨workers, hworkers, ?_⟩
  unfold run
  rw [Action.perform_read_bind, hlength, Action.perform_ofExcept_bind hworkers]
  by_cases hpool : 1 < workers
  · rw [if_pos hpool, if_pos hpool, arrange_range horder,
      ← collect_map (fun i => (outcome i).1) (machine.order_perm n)]
    have hdone := (Action.Does.inPool fun i hi => h i (horder i hi)).bind
      (f := fun answers => Action.ofExcept (collect answers)) (.ofExcept _)
    rw [List.append_nil] at hdone
    exact hdone machine w
  · rw [if_neg hpool, if_neg hpool, List.mapM_map]
    exact Action.Does.inTurn (fun i hi => h i (List.mem_range.1 hi)) machine w

end Workers

end JacobianAudit
