/-
**How many workers are used.**

The number of workers is bounded by what was asked for, by the number of tasks, by the processors
and by every limit in the environment that is a positive integer. None of these bounds is below one,
and the number used is the greatest that exceeds none of them. A setting that denotes no integer
asks for one worker, and a value that is no positive integer sets no limit. Only an infinite number
of workers is refused.

Main definitions:

* `JacobianAudit.Setting.denoted` — the integer that a setting denotes, or one;
* `JacobianAudit.Setting.IsInfinite` — a setting that is refused;
* `JacobianAudit.Workers.Permits` — the bounds on a number of workers.

Main results:

* `JacobianAudit.Machine.le_threads_iff` — what the processors and the limits allow;
* `JacobianAudit.Workers.resolve_eq` — the number of workers as a minimum;
* `JacobianAudit.Workers.resolve_greatest` — **the greatest number within all bounds**;
* `JacobianAudit.endless_workers_refused` — the one kind of setting for which there is none.
-/

import Mathlib.Order.Bounds.Basic
import Mathlib.Order.MinMax
import JacobianAudit.Proofs.Verdict
import JacobianAudit.Workers.Machine

set_option autoImplicit false

namespace JacobianAudit

/-! ### What a setting asks for -/

namespace Setting

/-- The integer that a setting denotes, or one if it denotes none. -/
def denoted (s : Setting) : ℤ := s.toInt.toOption.getD 1

/-- The setting is an infinite number. -/
def IsInfinite (s : Setting) : Prop :=
  ∃ x negative, s = real x ∧ Binary64.quantity x = .infinite negative

/-- Only infinite numbers are too large to denote an integer. -/
theorem toInt_eq_overflow_iff {s : Setting} : s.toInt = .error .overflow ↔ s.IsInfinite := by
  constructor
  · intro h
    cases s with
    | real x =>
        simp only [toInt] at h
        split at h
        · cases h
        · rename_i negative hx
          exact ⟨x, negative, rfl, hx⟩
        · cases h
    | text value =>
        simp only [toInt] at h
        split at h <;> cases h
    | absent | flag | whole | list | table => cases h
  · rintro ⟨x, negative, rfl, hx⟩
    rw [toInt, hx]

end Setting

/-! ### What the machine allows -/

namespace Machine

variable {machine : Machine} {limit v : ℤ}

/-- A limit is a positive integer that an environment variable holds. -/
theorem limit?_eq_some_iff {variableName : String} :
    machine.limit? variableName = some limit ↔
      ∃ text, machine.environment variableName = some text ∧
        Text.Numeral.parse? text = some limit ∧ 0 < limit := by
  unfold limit?
  simp only [Option.bind_eq_bind, Option.bind_eq_some_iff, Option.ite_none_right_eq_some,
    Option.some_inj]
  constructor
  · rintro ⟨text, htext, n, hn, hpos, rfl⟩
    exact ⟨text, htext, hn, hpos⟩
  · rintro ⟨text, htext, hn, hpos⟩
    exact ⟨text, htext, limit, hn, hpos, rfl⟩

theorem one_le_threads (machine : Machine) : 1 ≤ machine.threads := by
  unfold threads
  split <;> exact le_max_left _ _

/-- **What the processors and the limits allow.** -/
theorem le_threads_iff (hprocessors : ∀ p ∈ machine.processors, 0 < p) :
    v ≤ machine.threads ↔
      v ≤ machine.processors.getD 1 ∧ ∀ limit ∈ machine.limits, v ≤ limit := by
  have hknown : machine.knownProcessors = machine.processors.getD 1 ∧
      1 ≤ machine.knownProcessors := by
    unfold knownProcessors
    cases hp : machine.processors with
    | none => exact ⟨rfl, le_rfl⟩
    | some n =>
        have hpos := hprocessors n hp
        simp only [if_neg hpos.ne', Option.getD_some, true_and]
        exact hpos
  rw [← hknown.1]
  unfold threads
  cases hleast : machine.limits.min? with
  | none =>
      rw [List.min?_eq_none_iff.1 hleast, max_eq_right hknown.2]
      simp
  | some least =>
      obtain ⟨variableName, -, hlimit⟩ := List.mem_filterMap.1 (List.min?_mem hleast)
      obtain ⟨-, -, -, hpos⟩ := limit?_eq_some_iff.1 hlimit
      show v ≤ max 1 (min machine.knownProcessors least) ↔ _
      rw [max_eq_right (le_min hknown.2 hpos), le_min_iff, List.le_min?_iff hleast]

end Machine

/-! ### The number of workers -/

namespace Workers

/-- The bounds on a number of workers: the tasks, what was asked for, the processors and the limits
in the environment. -/
structure Permits (machine : Machine) (setting : Setting) (tasks : ℕ) (v : ℤ) : Prop where
  tasks_le : v ≤ max 1 (tasks : ℤ)
  requested_le : v ≤ max 1 setting.denoted
  processors_le : v ≤ machine.processors.getD 1
  limit_le : ∀ variableName ∈ ["OMP_NUM_THREADS", "MKL_NUM_THREADS", "OPENBLAS_NUM_THREADS",
      "VECLIB_MAXIMUM_THREADS", "NUMEXPR_NUM_THREADS"],
    ∀ text, machine.environment variableName = some text →
      ∀ limit, Text.Numeral.parse? text = some limit → 0 < limit → v ≤ limit

variable {machine : Machine} {setting : Setting} {tasks : ℕ} {v : ℤ}

/-- What is not infinite asks for a number of workers. -/
theorem requested_eq (h : ¬setting.IsInfinite) :
    requested setting = .ok (max 1 setting.denoted) := by
  rw [← Setting.toInt_eq_overflow_iff] at h
  unfold requested Setting.denoted
  split
  · rename_i n hn
    rw [hn]
    show Except.ok (if n < 1 then 1 else n) = .ok (max 1 n)
    congr 1
    omega
  · rename_i hn
    exact absurd hn h
  · rename_i hn
    rw [hn]
    rfl

theorem resolve_of_isInfinite (h : setting.IsInfinite) :
    resolve machine setting (.count tasks) = .error .overflow := by
  have hrequested : requested setting = .error .overflow := by
    rw [requested, Setting.toInt_eq_overflow_iff.2 h]
  unfold resolve
  rw [hrequested]
  rfl

/-- **The number of workers as a minimum.** A single worker and a single task are no exceptions. -/
theorem resolve_eq (h : ¬setting.IsInfinite) :
    resolve machine setting (.count tasks) =
      .ok (min (min (max 1 setting.denoted) (max 1 (tasks : ℤ))) machine.threads) := by
  have hthreads := machine.one_le_threads
  unfold resolve
  rw [requested_eq h]
  simp only [bind, Except.bind, pure, Except.pure, Setting.atMost_whole, Setting.toInt_whole,
    decide_eq_true_eq]
  split
  · congr 1
    omega
  · split <;> congr 1 <;> omega

/-- What the bounds permit is what does not exceed that minimum. -/
theorem permits_iff (hprocessors : ∀ p ∈ machine.processors, 0 < p) :
    Permits machine setting tasks v ↔
      v ≤ min (min (max 1 setting.denoted) (max 1 (tasks : ℤ))) machine.threads := by
  rw [le_min_iff, le_min_iff, Machine.le_threads_iff hprocessors]
  constructor
  · rintro ⟨htasks, hrequested, hprocessors, hlimits⟩
    refine ⟨⟨hrequested, htasks⟩, hprocessors, fun limit hlimit => ?_⟩
    obtain ⟨variableName, hmem, hlimit⟩ := List.mem_filterMap.1 hlimit
    obtain ⟨text, htext, hparse, hpos⟩ := Machine.limit?_eq_some_iff.1 hlimit
    exact hlimits variableName hmem text htext limit hparse hpos
  · rintro ⟨⟨hrequested, htasks⟩, hprocessors, hlimits⟩
    refine ⟨htasks, hrequested, hprocessors, ?_⟩
    intro variableName hmem text htext limit hparse hpos
    have hlimit := Machine.limit?_eq_some_iff.2 ⟨text, htext, hparse, hpos⟩
    exact hlimits limit (List.mem_filterMap.2 ⟨variableName, hmem, hlimit⟩)

/-- **The greatest number within all bounds.** Whatever was written as the number of workers, on a
machine with a positive or an unknown number of processors so many workers are used, at least one,
as none of the bounds forbids. The one exception is an infinite number, which is refused. -/
theorem resolve_greatest (hprocessors : ∀ p ∈ machine.processors, 0 < p) (setting : Setting)
    (tasks : ℕ) :
    (setting.IsInfinite → resolve machine setting (.count tasks) = .error .overflow) ∧
    (¬setting.IsInfinite → ∃ w, resolve machine setting (.count tasks) = .ok w ∧ 1 ≤ w ∧
      IsGreatest {v | Permits machine setting tasks v} w) := by
  refine ⟨resolve_of_isInfinite, fun h => ⟨_, resolve_eq h, ?_, ?_, ?_⟩⟩
  · exact le_min (le_min (le_max_left _ _) (le_max_left _ _)) machine.one_le_threads
  · exact (permits_iff hprocessors).2 le_rfl
  · exact fun v hv => (permits_iff hprocessors).1 hv

end Workers

/-- Eight processors, one limit of four threads, and two values that are no limits. -/
def sharedMachine : Machine :=
  { plainMachine with
    processors := some 8
    environment
      | "OMP_NUM_THREADS" => some "many"
      | "MKL_NUM_THREADS" => some " 4"
      | "OPENBLAS_NUM_THREADS" => some "-2"
      | _ => none }

theorem resolve_greatest_shared :
    (∀ p ∈ sharedMachine.processors, 0 < p) ∧ ¬(Setting.text "6").IsInfinite ∧
      Workers.resolve sharedMachine (.text "6") (.count 5) = .ok 4 ∧
      IsGreatest {v | Workers.Permits sharedMachine (.text "6") 5 v} 4 := by
  have hprocessors : ∀ p ∈ sharedMachine.processors, 0 < p := by
    rintro p hp
    obtain rfl := Option.some.inj hp
    decide
  have hfinite : ¬(Setting.text "6").IsInfinite := nofun
  have hfour : Workers.resolve sharedMachine (.text "6") (.count 5) = .ok 4 := by decide +kernel
  obtain ⟨w, hw, -, hgreatest⟩ := (Workers.resolve_greatest hprocessors (.text "6") 5).2 hfinite
  obtain rfl : w = 4 := Except.ok.inj (hw.symm.trans hfour)
  exact ⟨hprocessors, hfinite, hfour, hgreatest⟩

/-- **An infinite number of workers is refused**, and not taken for one. -/
theorem endless_workers_refused :
    ¬∀ (machine : Machine) (setting : Setting) (tasks : ℕ), (∀ p ∈ machine.processors, 0 < p) →
      ∃ w, Workers.resolve machine setting (.count tasks) = .ok w ∧ 1 ≤ w ∧
        Workers.Permits machine setting tasks w := by
  intro h
  obtain ⟨w, hw, -⟩ := h plainMachine (.real (1.0 / 0.0)) 3 fun p hp => by
    obtain rfl := Option.some.inj hp
    decide
  have hrefused : Workers.resolve plainMachine (.real (1.0 / 0.0)) (.count 3) =
      .error .overflow := by decide +kernel
  rw [hrefused] at hw
  cases hw

end JacobianAudit
