/-
**What an action promises.**

Where the callers' functions are known only by what they may answer, no more can be said of a
computation than that: an answer of it, if there is one, is of some kind, and so is a fault. This
module states that as a judgement on actions and follows it through sequences, attempts and pools
of workers. An action that promises no fault at all is certain to answer.

Main definitions:

* `JacobianAudit.Action.Promises` — what an answer or a fault of an action satisfies.

Main results:

* `JacobianAudit.Action.Promises.bind`, `JacobianAudit.Action.Promises.mapM` — the promises of a
  sequence;
* `JacobianAudit.Action.Promises.exists_ok` — without faults there is an answer;
* `JacobianAudit.Workers.run_promises` — **tasks keep their promises on however many workers, and
  there are as many answers as tasks**.
-/

import JacobianAudit.Proofs.Frames
import JacobianAudit.Proofs.Outcomes

set_option autoImplicit false

namespace JacobianAudit

namespace Action

variable {σ β γ : Type}

/-- On every machine and from every world, an answer of the action satisfies one property and a
fault of it another. -/
structure Promises (a : Action σ β) (answer : β → Prop) (fault : Fault → Prop) : Prop where
  answers : ∀ {machine : Machine} {w w' : World σ} {x : β},
    a.perform machine w = (.ok x, w') → answer x
  faults : ∀ {machine : Machine} {w w' : World σ} {f : Fault},
    a.perform machine w = (.error f, w') → fault f

namespace Promises

variable {answer answer' : β → Prop} {fault fault' : Fault → Prop}

theorem pure {x : β} (h : answer x) : (Pure.pure x : Action σ β).Promises answer fault where
  answers hx := by
    obtain ⟨rfl, -⟩ := by simpa using hx
    exact h
  faults hf := by simp at hf

theorem throw {f : Fault} (h : fault f) :
    (MonadExcept.throw f : Action σ β).Promises answer fault where
  answers hx := by simp at hx
  faults hf := by
    obtain ⟨rfl, -⟩ := by simpa using hf
    exact h

theorem ofExcept {result : Except Fault β} (ha : ∀ x, result = .ok x → answer x)
    (hf : ∀ f, result = .error f → fault f) :
    (Action.ofExcept result : Action σ β).Promises answer fault := by
  cases result with
  | error f => exact .throw (hf f rfl)
  | ok x => exact .pure (ha x rfl)

theorem warn (text : String) :
    (Action.warn text : Action σ Unit).Promises (fun _ => True) fault where
  answers _ := True.intro
  faults hf := by simp at hf

/-- What is promised of a known answer. -/
theorem ofExcept_ok {result : Except Fault β} {x : β} (h : result = .ok x) (hx : answer x) :
    (Action.ofExcept result : Action σ β).Promises answer fault := by
  subst h
  exact .pure hx

/-- The second part of a sequence may rely on what the first part promises. -/
theorem bind {answer' : γ → Prop} {a : Action σ β} {f : β → Action σ γ}
    (ha : a.Promises answer fault) (hf : ∀ x, answer x → (f x).Promises answer' fault) :
    (a >>= f).Promises answer' fault where
  answers h := by
    obtain ⟨x, w₁, hx, h⟩ := perform_bind_eq_ok_iff.1 h
    exact (hf x (ha.answers hx)).answers h
  faults h := by
    rcases perform_bind_eq_error_iff.1 h with h | ⟨x, w₁, hx, h⟩
    · exact ha.faults h
    · exact (hf x (ha.answers hx)).faults h

/-- What is read off data is known beforehand. -/
theorem ofExcept_bind {answer : γ → Prop} {result : Except Fault β} {f : β → Action σ γ} {x : β}
    (h : result = .ok x) (hf : (f x).Promises answer fault) :
    (Action.ofExcept result >>= f).Promises answer fault := by
  have hx : (Action.ofExcept result : Action σ β).Promises (fun y => y = x) fault :=
    ofExcept_ok h rfl
  refine hx.bind fun y hy => ?_
  rw [hy]
  exact hf

theorem mono {a : Action σ β} (ha : a.Promises answer fault) (h : ∀ x, answer x → answer' x)
    (h' : ∀ f, fault f → fault' f) : a.Promises answer' fault' where
  answers hx := h _ (ha.answers hx)
  faults hf := h' _ (ha.faults hf)

/-- Nothing is promised of an action in general. -/
theorem trivial (a : Action σ β) : a.Promises (fun _ => True) (fun _ => True) where
  answers _ := True.intro
  faults _ := True.intro

theorem isolated {a : Action σ β} (ha : a.Promises answer fault) :
    a.isolated.Promises answer fault where
  answers h := by
    rw [perform_isolated] at h
    exact ha.answers (eq_mk_of_fst (Prod.mk.inj h).1)
  faults h := by
    rw [perform_isolated] at h
    exact ha.faults (eq_mk_of_fst (Prod.mk.inj h).1)

/-- An attempt has no fault: it answers with what was promised of the answer or of the fault. -/
theorem attempt {a : Action σ β} (ha : a.Promises answer fault) :
    a.attempt.Promises (fun result => (∀ x, result = .ok x → answer x) ∧
      ∀ f, result = .error f → fault f) fault' where
  answers h := by
    rw [perform_attempt] at h
    obtain ⟨h, -⟩ := Prod.mk.inj h
    rw [← Except.ok.inj h]
    exact ⟨fun x hx => ha.answers (eq_mk_of_fst hx), fun f hf => ha.faults (eq_mk_of_fst hf)⟩
  faults h := by
    rw [perform_attempt] at h
    cases (Prod.mk.inj h).1

/-- Each question of a list keeps its own promise. -/
theorem mapM {r : γ → β → Prop} {f : γ → Action σ β} {xs : List γ}
    (h : ∀ x ∈ xs, (f x).Promises (r x) fault) :
    (xs.mapM f).Promises (List.Forall₂ r xs) fault := by
  induction xs with
  | nil =>
      rw [List.mapM_nil]
      exact .pure .nil
  | cons x xs ih =>
      rw [List.mapM_cons]
      refine (h x List.mem_cons_self).bind fun y hy => ?_
      exact (ih fun z hz => h z (List.mem_cons_of_mem x hz)).bind fun ys hys =>
        .pure (.cons hy hys)

/-- An action that promises no fault is certain to answer. -/
theorem exists_ok {a : Action σ β} (ha : a.Promises answer fun _ => False) (machine : Machine)
    (w : World σ) : ∃ x w', a.perform machine w = (.ok x, w') ∧ answer x := by
  rcases h : a.perform machine w with ⟨f | x, w'⟩
  · cases ha.faults h
  · exact ⟨x, w', rfl, ha.answers h⟩

end Promises

end Action

/-! ### Pools of workers -/

namespace Workers

variable {σ β : Type} {answer : β → Prop} {fault : Fault → Prop}

/-- How many workers are used is only unknown if it is unknown how many are asked for. -/
theorem requested_of_resolve {machine : Machine} {setting : Setting} {n : ℕ} {f : Fault}
    (h : resolve machine setting (.count n) = .error f) : requested setting = .error f := by
  cases hr : requested setting with
  | error f' =>
      unfold resolve at h
      rw [hr] at h
      exact congrArg Except.error (Except.error.inj h)
  | ok k =>
      obtain ⟨workers, hk⟩ := exists_resolve ⟨k, hr⟩ machine n
      rw [hk] at h
      cases h

/-- Every task has its place in the machine's order. -/
theorem length_arrange (machine : Machine) (tasks : List (Action σ β)) :
    (arrange tasks (machine.order tasks.length)).length = tasks.length := by
  have hperm := machine.order_perm tasks.length
  have hall : ∀ i ∈ machine.order tasks.length,
      (tasks[i]?.map fun task => (i, task)).isSome := by
    intro i hi
    have hlt : i < tasks.length := List.mem_range.1 (hperm.subset hi)
    simp [hlt]
  have hlength := List.filterMap_length_eq_length.2 hall
  rw [arrange, hlength, hperm.length_eq, List.length_range]

/-- What is collected are the answers themselves, in some order. -/
theorem of_collect {results : List (ℕ × Except Fault β)} {ys : List β}
    (h : collect results = .ok ys) :
    ys.length = results.length ∧ ∀ y ∈ ys, ∃ p ∈ results, p.2 = .ok y := by
  have hread := Except.mapM_eq_ok_iff.1 h
  refine ⟨by rw [← hread.length_eq, List.length_mergeSort], fun y hy => ?_⟩
  obtain ⟨p, hp, hpy⟩ := exists_of_forall₂_mem hread hy
  exact ⟨p, List.mem_mergeSort.1 hp, hpy⟩

/-- A fault that is collected is that of a task. -/
theorem of_collect_error {results : List (ℕ × Except Fault β)} {f : Fault}
    (h : collect results = .error f) : ∃ p ∈ results, p.2 = .error f := by
  obtain ⟨p, hp, hpf⟩ := Except.exists_of_mapM_eq_error h
  exact ⟨p, List.mem_mergeSort.1 hp, hpf⟩

/-- **Tasks keep their promises**, one after the other or in a pool, and each of them answers. The
only fault that can come on top is a number of workers that cannot be read. -/
theorem run_promises {setting : Setting} {tasks : List (Action σ β)}
    (h : ∀ task ∈ tasks, task.Promises answer fault)
    (hs : ∀ f, requested setting = .error f → fault f) :
    (run setting tasks).Promises (fun ys => ys.length = tasks.length ∧ ∀ y ∈ ys, answer y)
      fault := by
  have hmachine : (read : Action σ Machine).Promises (fun _ => True) fault :=
    ⟨fun _ => True.intro, fun hf => nomatch (Prod.mk.inj hf).1⟩
  refine hmachine.bind fun machine _ => ?_
  have hworkers : (Action.ofExcept (resolve machine setting (.count tasks.length)) :
      Action σ ℤ).Promises (fun _ => True) fault :=
    .ofExcept (fun _ _ => True.intro) fun f hf => hs f (requested_of_resolve hf)
  refine hworkers.bind fun workers _ => ?_
  by_cases hpool : 1 < workers
  · rw [if_pos hpool]
    -- in a pool the faults of the tasks are answers, until they are collected
    have hresults : (inPool (arrange tasks (machine.order tasks.length))).Promises
        (List.Forall₂ (fun _ p => (∀ x, p.2 = .ok x → answer x) ∧ ∀ f, p.2 = .error f → fault f)
          (arrange tasks (machine.order tasks.length))) fault := by
      refine .mapM fun task ht => ?_
      exact (h task.2 (mem_arrange ht)).isolated.attempt.bind fun result hr => .pure hr
    refine hresults.bind fun results hr => ?_
    have hkept : ∀ p ∈ results, (∀ x, p.2 = .ok x → answer x) ∧
        ∀ f, p.2 = .error f → fault f := by
      intro p hp
      obtain ⟨_, -, hkept⟩ := exists_of_forall₂_mem hr hp
      exact hkept
    refine .ofExcept (fun ys hys => ?_) fun f hf => ?_
    · obtain ⟨hlength, hmem⟩ := of_collect hys
      refine ⟨by rw [hlength, ← hr.length_eq, length_arrange], fun y hy => ?_⟩
      obtain ⟨p, hp, hpy⟩ := hmem y hy
      exact (hkept p hp).1 y hpy
    · obtain ⟨p, hp, hpf⟩ := of_collect_error hf
      exact (hkept p hp).2 f hpf
  · rw [if_neg hpool]
    have hserial := Action.Promises.mapM (f := id) (r := fun _ => answer) h
    refine hserial.mono (fun ys hys => ⟨hys.length_eq.symm, fun y hy => ?_⟩) fun _ hf => hf
    obtain ⟨_, -, hpromised⟩ := exists_of_forall₂_mem hys hy
    exact hpromised

end Workers

end JacobianAudit
