/-
**What a probe writes into the journal.**

Three parts of a probe may warn: an evaluator that is made of functions warns of residuals that are
not finite, wherever it is asked for them; a probe that has to give up says why; and a comparison
that fails says so after its summary. A warning of the evaluator is never the last word, since it
goes with having no value, and that makes the probe give up. So warnings are written exactly where
the verdict is no. The columns of a numeric Jacobian may be computed in a pool, where each of them
runs to its end; but a column that has warned has failed, and so has the pool.

Main definitions:

* `JacobianAudit.Action.Logs` — what an action writes, and with which answer;
* `JacobianAudit.Action.Silent`, `JacobianAudit.Action.SilentIf` — an action that writes nothing,
  and one that writes nothing if it gives an answer of some kind;
* `JacobianAudit.Evaluator.Reserved` — an evaluator that writes nothing where it has a value;
* `JacobianAudit.Ending.Leaves` — what is written by a probe that ends so;
* `JacobianAudit.Checker.CompletesAt` — the point is read and all blocks are differentiated;
* `JacobianAudit.Mirrors` — what was written goes with the verdict.

Main results:

* `JacobianAudit.Workers.run_quiet` — tasks that write nothing if they answer, on a pool;
* `JacobianAudit.Functions.reserved` — an evaluator that is made of silent functions;
* `JacobianAudit.Checker.differentiate_quiet` — the loop over the blocks writes nothing if it meets
  no fault;
* `JacobianAudit.Checker.runAt_logs` — what each way to end leaves in the journal;
* `JacobianAudit.Checker.journal_mirrors_verdict` — **the journal mirrors the verdict**.
-/

import JacobianAudit.Proofs.Contracts
import JacobianAudit.Proofs.Obstacles
import JacobianAudit.Proofs.Transparency

set_option autoImplicit false

namespace JacobianAudit

variable {σ α β γ : Type}

/-- All entries are warnings. -/
def Warnings (entries : List Entry) : Prop := ∀ e ∈ entries, e.level = .warning

theorem warnings_nil : Warnings [] := fun _ h => nomatch h

theorem warnings_append {entries more : List Entry} (h : Warnings entries) (h' : Warnings more) :
    Warnings (entries ++ more) := fun e he => (List.mem_append.1 he).elim (h e) (h' e)

/-! ### What an action writes -/

namespace Action

/-- What the action adds to the journal is in a relation with what it answers. -/
def Logs (r : Except Fault β → List Entry → Prop) (a : Action σ β) : Prop :=
  ∀ machine w, ∃ entries, (a.perform machine w).2.journal = w.journal ++ entries ∧
    r (a.perform machine w).1 entries

/-- The action writes nothing. -/
def Silent (a : Action σ β) : Prop := a.Logs fun _ entries => entries = []

/-- The action writes warnings at most, and nothing if it gives such an answer. -/
def SilentIf (P : Except Fault β → Prop) (a : Action σ β) : Prop :=
  a.Logs fun answer entries => Warnings entries ∧ (P answer → entries = [])

/-- What is written after warnings, of which there are none if something holds. -/
def After (p : Prop) (t : Except Fault β → List Entry → Prop) (answer : Except Fault β)
    (more : List Entry) : Prop :=
  ∀ entries, Warnings entries → (p → entries = []) → t answer (entries ++ more)

namespace Logs

variable {r t : Except Fault β → List Entry → Prop} {a : Action σ β}

theorem mono (h : a.Logs r) (hrt : ∀ answer entries, r answer entries → t answer entries) :
    a.Logs t := by
  intro machine w
  obtain ⟨entries, hjournal, hr⟩ := h machine w
  exact ⟨entries, hjournal, hrt _ _ hr⟩

theorem ofExcept {answer : Except Fault β} (h : r answer []) :
    (Action.ofExcept answer : Action σ β).Logs r := by
  intro machine w
  rw [perform_ofExcept]
  exact ⟨[], (List.append_nil _).symm, h⟩

theorem pure {x : β} (h : r (.ok x) []) : (Pure.pure x : Action σ β).Logs r := ofExcept h

theorem throw {fault : Fault} (h : r (.error fault) []) :
    (MonadExcept.throw fault : Action σ β).Logs r := ofExcept h

/-- A sequence writes what its parts write, as far as it gets. -/
theorem bind {s : β → Except Fault γ → List Entry → Prop}
    {t : Except Fault γ → List Entry → Prop} {f : β → Action σ γ} (ha : a.Logs r)
    (hf : ∀ x, (f x).Logs (s x))
    (herror : ∀ fault entries, r (.error fault) entries → t (.error fault) entries)
    (hok : ∀ x entries answer more, r (.ok x) entries → s x answer more →
      t answer (entries ++ more)) : (a >>= f).Logs t := by
  intro machine w
  obtain ⟨entries, hjournal, hr⟩ := ha machine w
  rw [perform_bind]
  rcases hp : a.perform machine w with ⟨fault | x, w₁⟩ <;> rw [hp] at hjournal hr
  · exact ⟨entries, hjournal, herror fault entries hr⟩
  · obtain ⟨more, hmore, hs⟩ := hf x machine w₁
    refine ⟨entries ++ more, ?_, hok x entries _ more hr hs⟩
    rw [hmore, show w₁.journal = w.journal ++ entries from hjournal, List.append_assoc]

/-- What is written after a message comes after it. -/
theorem log_bind {t : Except Fault γ → List Entry → Prop} {level : Level} {text : String}
    {f : Unit → Action σ γ} (hf : (f ()).Logs fun answer more => t answer (⟨level, text⟩ :: more)) :
    (Action.log level text >>= f).Logs t := by
  intro machine w
  obtain ⟨more, hmore, ht⟩ := hf machine { w with journal := w.journal ++ [⟨level, text⟩] }
  rw [perform_bind_of_ok (perform_log machine w level text)]
  exact ⟨_, by rw [hmore, List.append_assoc, List.singleton_append], ht⟩

/-- An attempt writes what the action writes, and answers in either case. -/
theorem attempt (h : a.Logs r) :
    a.attempt.Logs fun answer entries => ∃ found, answer = .ok found ∧ r found entries := by
  intro machine w
  obtain ⟨entries, hjournal, hr⟩ := h machine w
  rw [perform_attempt]
  exact ⟨entries, hjournal, _, rfl, hr⟩

/-- Where nothing was written before. -/
theorem after {p : Prop} (h : a.Logs r) (hp : p) : a.Logs (After p r) := by
  refine h.mono fun answer more hr entries _ hentries => ?_
  rwa [hentries hp, List.nil_append]

theorem isolated (h : a.Logs r) : a.isolated.Logs r := by
  intro machine w
  obtain ⟨entries, hjournal, hr⟩ := h machine w
  rw [perform_isolated]
  exact ⟨entries, hjournal, hr⟩

end Logs

theorem chained_silent : Chained fun β (a : Action σ β) => a.Silent where
  pure _ := .pure rfl
  throw _ := .throw rfl
  bind ha hf := ha.bind hf (fun _ _ h => h) fun _ _ _ _ h h' => by rw [h, h', List.append_nil]

theorem Silent.attempt {a : Action σ β} (h : a.Silent) : a.attempt.Silent := by
  refine Logs.mono (Logs.attempt h) ?_
  rintro _ entries ⟨_, -, hentries⟩
  exact hentries

theorem Silent.silentIf {P : Except Fault β → Prop} {a : Action σ β} (h : a.Silent) :
    a.SilentIf P :=
  h.mono fun _ _ hentries => ⟨hentries ▸ warnings_nil, fun _ => hentries⟩

namespace SilentIf

variable {P : Except Fault β → Prop} {Q : Except Fault γ → Prop} {a : Action σ β}
  {f : β → Action σ γ}

theorem pure (x : β) : (Pure.pure x : Action σ β).SilentIf P :=
  Logs.pure ⟨warnings_nil, fun _ => rfl⟩

theorem throw (fault : Fault) : (MonadExcept.throw fault : Action σ β).SilentIf P :=
  Logs.throw ⟨warnings_nil, fun _ => rfl⟩

/-- An attempt has an answer of the kind if the action has. -/
theorem attempt (ha : a.SilentIf P) :
    a.attempt.SilentIf fun answer => ∃ found, answer = .ok found ∧ P found := by
  refine Logs.mono (Logs.attempt ha) ?_
  rintro _ entries ⟨found, rfl, hw, hs⟩
  refine ⟨hw, fun ⟨found', hfound, hP⟩ => hs ?_⟩
  rwa [Except.ok.inj hfound]

/-- A sequence writes nothing if its second part gives an answer of its kind only after an answer of
the other kind. -/
theorem bind (ha : a.SilentIf P) (hf : ∀ x, (f x).SilentIf Q)
    (hPQ : ∀ x machine w, Q ((f x).perform machine w).1 → P (.ok x))
    (herror : ∀ fault, ¬Q (.error fault)) : (a >>= f).SilentIf Q := by
  refine Logs.bind (s := fun x answer entries => (Warnings entries ∧ (Q answer → entries = [])) ∧
    (Q answer → P (.ok x))) ha (fun x machine w => ?_)
    (fun fault _ h => ⟨h.1, fun hQ => absurd hQ (herror fault)⟩) ?_
  · obtain ⟨entries, hjournal, h⟩ := hf x machine w
    exact ⟨entries, hjournal, h, hPQ x machine w⟩
  · rintro x entries answer more ⟨hw, hs⟩ ⟨⟨hw', hs'⟩, hP⟩
    refine ⟨warnings_append hw hw', fun hQ => ?_⟩
    rw [hs (hP hQ), hs' hQ, List.append_nil]

/-- A sequence whose first part writes nothing. -/
theorem of_silent (ha : a.Silent) (hf : ∀ x, (f x).SilentIf Q)
    (herror : ∀ fault, ¬Q (.error fault)) : (a >>= f).SilentIf Q :=
  (ha.silentIf (P := fun _ => True)).bind hf (fun _ _ _ _ => trivial) herror

/-- What a sequence writes, if it goes on with whatever its first part answers. -/
theorem bind_logs {t : Except Fault γ → List Entry → Prop} (ha : a.SilentIf P)
    (hf : ∀ x, (f x).Logs (After (P (.ok x)) t))
    (herror : ∀ fault entries, t (.error fault) entries) : (a >>= f).Logs t :=
  Logs.bind ha hf (fun fault entries _ => herror fault entries)
    fun _ entries _ _ h h' => h' entries h.1 h.2

/-- What is made of an answer is made without writing. -/
theorem bind_pure (ha : a.SilentIf P) (g : β → γ) (hPQ : ∀ x, Q (.ok (g x)) → P (.ok x))
    (herror : ∀ fault, ¬Q (.error fault)) : (a >>= fun x => Pure.pure (g x)).SilentIf Q :=
  ha.bind (fun x => .pure (g x)) (fun x _ _ => hPQ x) herror

end SilentIf

/-! ### Having an answer, having a value -/

/-- There is an answer. -/
def IsOk (answer : Except Fault β) : Prop := ∃ x, answer = .ok x

/-- There is an answer, and it is a value. -/
def IsValue (answer : Except Fault (Option β)) : Prop := ∃ x, answer = .ok (some x)

theorem chained_quiet : Chained fun β (a : Action σ β) => a.SilentIf IsOk where
  pure := .pure
  throw := .throw
  bind ha hf := ha.bind hf (fun x _ _ _ => ⟨x, rfl⟩) fun _ => nofun

section Value

variable {a : Action σ (Option β)} {Q : Except Fault γ → Prop} (ha : a.SilentIf IsValue)

include ha

/-- A sequence that gives an answer of its kind only after a value. -/
theorem SilentIf.bind_value {f : Option β → Action σ γ} (hf : ∀ found, (f found).SilentIf Q)
    (hnone : ∀ machine w, ¬Q ((f none).perform machine w).1) (herror : ∀ fault, ¬Q (.error fault)) :
    (a >>= f).SilentIf Q := by
  refine ha.bind hf (fun found machine w h => ?_) herror
  cases found with
  | none => exact absurd h (hnone machine w)
  | some x => exact ⟨x, rfl⟩

/-- If there is nothing to go on from, there is no value. -/
theorem SilentIf.bind_isValue {f : Option β → Action σ (Option γ)}
    (hnone : f none = Pure.pure none) (hsome : ∀ x, (f (some x)).Silent) :
    (a >>= f).SilentIf IsValue := by
  refine ha.bind_value (fun found => ?_) (fun machine w => ?_) fun _ => nofun
  · cases found with
    | none => exact hnone ▸ .pure none
    | some x => exact (hsome x).silentIf
  · rw [hnone]
    exact nofun

/-- If it is a fault that there is nothing to go on from, there is no answer. -/
theorem SilentIf.bind_isOk {f : Option β → Action σ γ} {fault : Fault}
    (hnone : f none = MonadExcept.throw fault) (hsome : ∀ x, (f (some x)).Silent) :
    (a >>= f).SilentIf IsOk := by
  refine ha.bind_value (fun found => ?_) (fun machine w => ?_) fun _ => nofun
  · cases found with
    | none => exact hnone ▸ .throw fault
    | some x => exact (hsome x).silentIf
  · rw [hnone]
    exact nofun

end Value

end Action

open JacobianAudit.Action (IsOk IsValue)

/-! ### Running tasks -/

namespace Workers

/-- Every task has answered. -/
def AllOk (answer : Except Fault (List (ℕ × Except Fault β))) : Prop :=
  ∃ answers, answer = .ok answers ∧ ∀ p ∈ answers, IsOk p.2

/-- In a pool every task runs to its end. If anything was written, some task has failed. Induction
on the tasks. -/
theorem inPool_silentIf {tasks : List (ℕ × Action σ β)}
    (h : ∀ task ∈ tasks, task.2.SilentIf IsOk) : (inPool tasks).SilentIf AllOk := by
  unfold inPool
  induction tasks with
  | nil => exact .pure []
  | cons task tasks ih =>
      rw [List.mapM_cons]
      have hattempt := Action.SilentIf.attempt (h task List.mem_cons_self).isolated
      have hfirst : (do return (task.1, ← task.2.isolated.attempt) :
          Action σ (ℕ × Except Fault β)).SilentIf fun answer => ∃ p, answer = .ok p ∧
            IsOk p.2 := by
        refine hattempt.bind_pure (fun found => (task.1, found)) ?_ fun _ => nofun
        rintro found ⟨_, hp, hfound⟩
        obtain rfl := Except.ok.inj hp
        exact ⟨found, rfl, hfound⟩
      refine hfirst.bind (fun p => ?_) (fun p machine w hall => ?_) fun _ => nofun
      · refine (ih fun t ht => h t (List.mem_cons_of_mem task ht)).bind_pure (p :: ·) ?_
          fun _ => nofun
        rintro answers ⟨_, heq, hall⟩
        obtain rfl := Except.ok.inj heq
        exact ⟨answers, rfl, fun q hq => hall q (List.mem_cons_of_mem p hq)⟩
      · obtain ⟨answers, hanswers, hall⟩ := hall
        obtain ⟨rest, w₁, -, hrest⟩ := Action.perform_bind_eq_ok_iff.1 (eq_mk_of_fst hanswers)
        obtain rfl := Except.ok.inj (Prod.mk.inj hrest).1
        exact ⟨p, rfl, hall p List.mem_cons_self⟩

/-- Answers are collected only if there are no faults among them. -/
theorem isOk_of_collect {results : List (ℕ × Except Fault β)} {ys : List β}
    (h : collect results = .ok ys) : ∀ p ∈ results, IsOk p.2 := by
  intro p hp
  obtain ⟨y, -, hy⟩ := exists_of_forall₂_mem (Except.mapM_eq_ok_iff.1 h).flip
    (List.mem_mergeSort.2 hp)
  exact ⟨y, hy⟩

/-- **Tasks that write nothing if they answer**, one after the other or in a pool. -/
theorem run_quiet {setting : Setting} {tasks : List (Action σ β)}
    (h : ∀ task ∈ tasks, task.SilentIf IsOk) : (run setting tasks).SilentIf IsOk := by
  have hP := Action.chained_quiet (σ := σ)
  have hread : (read : Action σ Machine).SilentIf IsOk :=
    fun _ w => ⟨[], (List.append_nil w.journal).symm, warnings_nil, fun _ => rfl⟩
  refine hP.bind hread fun machine => hP.bind (hP.ofExcept _) fun workers => ?_
  by_cases hpool : 1 < workers
  · rw [if_pos hpool]
    refine (inPool_silentIf fun task ht => h task.2 (mem_arrange ht)).bind
      (fun answers => hP.ofExcept _) (fun answers machine w hok => ?_) fun _ => nofun
    obtain ⟨ys, hys⟩ := hok
    rw [Action.perform_ofExcept] at hys
    exact ⟨answers, rfl, isOk_of_collect hys⟩
  · rw [if_neg hpool]
    exact hP.mapM h

end Workers

/-! ### Evaluators -/

variable [Scalar α]

/-- Wherever it is asked, the evaluator writes warnings at most, and nothing if it has a value. -/
def Evaluator.Reserved (e : Evaluator σ α) : Prop :=
  ∀ parameters request, (e.evaluate parameters request).SilentIf IsValue

omit [Scalar α] in
theorem Evaluator.reserved_of_silent {e : Evaluator σ α} (h : e.Has fun _ a => a.Silent) :
    e.Reserved := fun parameters request => (h parameters request).silentIf

/-- **An evaluator that is made of silent functions** warns of residuals that are not finite, and
then it has no value. -/
theorem Functions.reserved {f : Functions σ α} (hf : f.Has fun _ a => a.Silent) :
    f.toEvaluator.Reserved := by
  have hP := Action.chained_silent (σ := σ)
  have hresiduals : ∀ parameters, (f.residuals parameters).SilentIf IsValue := by
    intro parameters
    refine .of_silent (hf.1 parameters) (fun values => ?_) fun _ => nofun
    split
    · exact .pure none
    · refine .of_silent (hP.ofExcept _) (fun xs => ?_) fun _ => nofun
      split
      · exact .pure (some xs)
      · -- the warning goes with having no value
        refine .log_bind (.pure ⟨fun e he => ?_, nofun⟩)
        rw [List.mem_singleton.1 he]
  intro parameters request
  refine (hresiduals parameters).bind_isValue rfl fun residuals => ?_
  cases request with
  | none => exact hP.pure _
  | some mask =>
      simp only []
      split
      · refine hP.bind (jacobians_inherits hP hf parameters mask) fun answer => ?_
        cases answer with
        | none => exact hP.pure _
        | some jacobians => exact hP.pure _
      · exact hP.pure _

/-! ### Numeric Jacobians -/

variable {c : Checker σ α}

/-- The evaluator writes nothing where it has a value, and the manifolds write nothing. -/
structure Checker.Reserved (c : Checker σ α) : Prop where
  evaluator : c.evaluator.Reserved
  manifolds : ∀ space ∈ c.spaces, ∀ m ∈ space.manifold, m.Has fun _ a => a.Silent

/-- The residuals after a step: without them there is a fault. -/
theorem Site.residuals_quiet {site : Site σ α} (he : site.evaluator.Reserved)
    (hm : ∀ m ∈ site.manifold, m.Has fun _ a => a.Silent) (i : ℕ) (step : α) :
    (site.residuals i step).SilentIf IsOk := by
  have hP := Action.chained_silent (σ := σ)
  refine Action.chained_quiet.bind (moved_inherits hP hm i step).silentIf fun block => ?_
  exact (he _ _).bind_isOk rfl fun answer => hP.ofExcept _

/-- The numeric Jacobian of a block. -/
theorem estimate_quiet {e : Evaluator σ α} (he : e.Reserved) {manifold : Option (Manifold σ α)}
    (hm : ∀ m ∈ manifold, m.Has fun _ a => a.Silent) (parameters : List (Supplied α))
    (index : Setting) (o : DiffOptions α) (base : Option (Supplied α)) :
    (estimate e parameters index manifold o base).SilentIf IsOk := by
  have hP := Action.chained_quiet (σ := σ)
  refine estimate_chained hP (fun _ => Workers.run_quiet) (fun blocks => ?_)
    (fun site hsite hmanifold i step => ?_) parameters index
  · unfold baseResiduals
    split
    · exact (he _ _).bind_isOk rfl fun answer => Action.chained_silent.ofExcept _
    · exact hP.ofExcept _
    · exact hP.pure _
  · subst hsite hmanifold
    exact site.residuals_quiet he hm i step

namespace Checker

variable (hc : c.Reserved)

include hc

theorem numeric_quiet {space : BlockSpace σ α}
    (hm : ∀ m ∈ space.manifold, m.Has fun _ a => a.Silent) (blocks : List (List α))
    (residuals : List α) (recording : Bool) (k : ℕ) :
    (c.numeric blocks residuals recording k space).SilentIf IsOk := by
  have hP := Action.chained_quiet (σ := σ)
  refine hP.bind (estimate_quiet hc.evaluator hm _ _ _ _) fun tangent => ?_
  split
  · exact hP.pure _
  · split
    · exact hP.pure _
    · exact hP.bind (estimate_quiet hc.evaluator (by simp) _ _ _ _) fun _ => hP.pure _

/-- Reading the point. -/
theorem read_reserved (blocks : List (List α)) : (c.read blocks).SilentIf IsValue := by
  have hP := Action.chained_silent (σ := σ)
  refine (hc.evaluator _ _).bind_isValue rfl fun answer => ?_
  refine hP.bind (hP.ofExcept _) fun residuals => ?_
  cases answer.jacobians with
  | none => exact hP.throw _
  | some jacobians =>
      simp only []
      split
      · exact hP.bind (hP.ofExcept _) fun _ => hP.pure _
      · exact hP.throw _

/-- **The loop over the blocks** writes nothing if it meets no fault. Induction on the tasks. -/
theorem differentiate_quiet {todo : List (ℕ × BlockSpace σ α × List α × Tensor α)}
    (hm : ∀ task ∈ todo, ∀ m ∈ task.2.1.manifold, m.Has fun _ a => a.Silent)
    (blocks : List (List α)) (reading : Reading α) (recording : Bool) (progress : Progress α) :
    (c.differentiate blocks reading recording todo progress).SilentIf
      fun answer => ∃ after, answer = .ok (after, none) := by
  have herror : ∀ fault, ¬∃ after, (Except.error fault :
      Except Fault (Progress α × Option (ℕ × Fault))) = .ok (after, none) := by
    rintro fault ⟨after, h⟩
    cases h
  induction todo generalizing progress with
  | nil => exact .pure _
  | cons task rest ih =>
      obtain ⟨k, space, block, jacobian⟩ := task
      have hspace := hm _ List.mem_cons_self
      have hrest := ih fun task ht => hm task (List.mem_cons_of_mem _ ht)
      have hprojected := project_inherits Action.chained_silent hspace (.array jacobian)
        (.vector block)
      have hderived := (numeric_quiet hc hspace blocks reading.residuals recording k).attempt
      unfold differentiate
      refine .of_silent (Action.Silent.attempt hprojected) (fun projected => ?_) herror
      cases projected with
      | error fault => exact .pure _
      | ok tangent =>
          refine hderived.bind (fun derived => ?_) (fun derived machine w h => ?_) herror
          · cases derived with
            | error fault => exact .pure _
            | ok numeric => exact hrest _
          · cases derived with
            | error fault =>
                obtain ⟨after, hafter⟩ := h
                cases (Prod.mk.inj (Except.ok.inj hafter)).2
            | ok numeric => exact ⟨_, rfl, numeric, rfl⟩

end Checker


/-! ### Endings -/

/-- The summary of a comparison of so many blocks. -/
def comparisonSummary (blocks : ℕ) (worst tolerance : α) : Entry :=
  ⟨.debug, "Probed " ++ toString blocks ++ " parameter block(s): worst relative error " ++
    significantText 3 worst ++ " (tolerance " ++ significantText 3 tolerance ++ ")."⟩

/-- The warning of a comparison that fails. -/
def disagreement (worst tolerance : α) : Entry :=
  ⟨.warning, "Gradient check failed: worst relative error " ++ significantText 3 worst ++
    " exceeds " ++ significantText 3 tolerance ++ "."⟩

/-- What a comparison writes: its summary, and a warning if it fails. -/
def comparisonEntries (blocks : ℕ) (worst tolerance : α) : List Entry :=
  comparisonSummary blocks worst tolerance ::
    if Scalar.le worst tolerance then [] else [disagreement worst tolerance]

/-- What a probe of so many blocks leaves in the journal if it ends so. -/
def Ending.Leaves (tolerance : α) (blocks : ℕ) : Ending α → List Entry → Prop
  | pointFailed, entries => ∃ before, Warnings before ∧
      entries = before ++ [⟨.warning, pointFailure⟩]
  | interrupted _ _ k (.evaluation cause), entries => ∃ before, Warnings before ∧
      entries = before ++ [⟨.warning, differentiationFailure k cause⟩]
  | compared _ _ comparisons, entries =>
      entries = comparisonEntries blocks (worstOfBlocks comparisons) tolerance
  | _, entries => Warnings entries

/-- Arrays that cannot be compared have different shapes, or are no matrices. None of that is a
missing value. -/
theorem not_isEvaluation_of_compareBlock {block : Setting} {a n : Tensor α} {tolerance : α}
    {fault : Fault} (h : compareBlock block (.array a) (.array n) tolerance = .error fault) :
    ¬fault.IsEvaluation := by
  rintro ⟨cause, rfl⟩
  have hread : compareBlock block (.array a) (.array n) tolerance =
      errorsOf a n >>= _ := rfl
  rcases Except.bind_eq_error_iff.1 (hread.symm.trans h) with h | ⟨errors, -, h⟩
  · unfold errorsOf at h
    split at h
    · next hshape => cases (Tensor.zipWith_of_shape_eq relativeError hshape).symm.trans h
    · cases h
  · split at h
    · cases h
    · split at h <;> cases h

namespace Checker

theorem not_isEvaluation_of_compare {progress : Progress α} {tolerance : α} {fault : Fault}
    (h : compare progress tolerance = .error fault) : ¬fault.IsEvaluation := by
  obtain ⟨_, -, hblock⟩ := Except.exists_of_mapM_eq_error h
  exact not_isEvaluation_of_compareBlock hblock

/-- What follows a comparison that is logged comes after its entries. -/
theorem logComparison_bind_logs {t : Except Fault γ → List Entry → Prop} {n : ℕ}
    {worst tolerance : α} {f : Unit → Action σ γ}
    (hf : (f ()).Logs fun answer more => t answer (comparisonEntries n worst tolerance ++ more)) :
    (logComparison n worst tolerance >>= f).Logs t := by
  unfold comparisonEntries at hf
  unfold logComparison
  rw [bind_assoc]
  refine .log_bind ?_
  cases hle : Scalar.le worst tolerance with
  | false =>
      rw [hle] at hf
      exact .log_bind hf
  | true =>
      rw [hle] at hf
      exact hf

/-- **What each way to end leaves in the journal.** -/
theorem runAt_logs (hc : c.Reserved) (blocks : List (List α)) (tolerance : α)
    (recording : Bool) :
    (c.runAt blocks tolerance recording).Logs fun answer entries => ∀ ending,
      answer = .ok ending → ending.Leaves tolerance blocks.length entries := by
  unfold runAt
  refine (read_reserved hc blocks).attempt.bind_logs (fun found => ?_) fun _ _ => nofun
  rcases found with fault | _ | reading
  · refine .pure ?_
    rintro entries hw - _ ⟨⟩
    rwa [List.append_nil]
  · refine .log_bind (.pure ?_)
    rintro entries hw - _ ⟨⟩
    exact ⟨entries, hw, rfl⟩
  · -- there is a value, so nothing is written yet
    refine .after ?_ ⟨_, rfl, reading, rfl⟩
    have hspaces : ∀ task ∈ c.tasks blocks reading.jacobians, ∀ m ∈ task.2.1.manifold,
        m.Has fun _ a => a.Silent := fun task ht =>
      hc.manifolds _ (List.mem_of_getElem? (mem_tasks_iff.1 ht).1)
    refine (differentiate_quiet hc hspaces blocks reading recording {}).bind_logs
      (fun done => ?_) fun _ _ => nofun
    rcases done with ⟨progress, _ | ⟨k, fault⟩⟩
    · refine .after ?_ ⟨progress, rfl⟩
      simp only []
      cases hcompare : compare progress tolerance with
      | error fault =>
          refine .pure ?_
          rintro _ ⟨⟩
          cases fault with
          | evaluation cause => exact absurd ⟨cause, rfl⟩ (not_isEvaluation_of_compare hcompare)
          | _ => exact warnings_nil
      | ok comparisons =>
          refine logComparison_bind_logs (.pure ?_)
          rintro _ ⟨⟩
          exact List.append_nil _
    · cases fault with
      | evaluation cause =>
          refine .log_bind (.pure ?_)
          rintro entries hw - _ ⟨⟩
          exact ⟨entries, hw, rfl⟩
      | _ =>
          refine .pure ?_
          rintro entries hw - _ ⟨⟩
          rwa [List.append_nil]

/-- The evaluator has a value at the point, and the projection and the numeric differentiation of
every block meet no fault. -/
def CompletesAt (c : Checker σ α) (machine : Machine) (w : World σ) (blocks : List (List α))
    (recording : Bool) : Prop :=
  ∃ reading w₁ ms w₂, (c.read blocks).perform machine w = (.ok (some reading), w₁) ∧
    c.Differentiates machine blocks reading.residuals recording
      (c.tasks blocks reading.jacobians) w₁ ms w₂

/-- A probe that answers gets to compare exactly if every differentiation is completed. -/
theorem completesAt_iff {machine : Machine} {w w' : World σ} {blocks : List (List α)}
    {tolerance : α} {recording : Bool} {ending : Ending α} {verdict : Bool}
    (hat : (c.runAt blocks tolerance recording).perform machine w = (.ok ending, w'))
    (hv : ending.verdict tolerance = .ok verdict) :
    c.CompletesAt machine w blocks recording ↔
      ∃ reading progress comparisons, ending = .compared reading progress comparisons := by
  cases ends_of_runAt hat with
  | faulted hread => cases hv
  | pointFailed hread =>
      refine ⟨?_, nofun⟩
      rintro ⟨reading, w₁, ms, w₂, hvalue, -⟩
      cases hread.symm.trans hvalue
  | interrupted hread hstop =>
      refine ⟨?_, nofun⟩
      rintro ⟨reading, w₁, ms, w₂, hvalue, hms⟩
      obtain ⟨hreading, rfl⟩ := Prod.mk.inj (hread.symm.trans hvalue)
      obtain rfl := Option.some.inj (Except.ok.inj hreading)
      cases hstop.symm.trans (differentiate_eq_none_iff.2 ⟨ms, hms, rfl⟩)
  | @incomparable _ _ fault _ _ hread hms hcompare =>
      -- such a fault is no answer
      cases fault with
      | evaluation cause => exact absurd ⟨cause, rfl⟩ (not_isEvaluation_of_compare hcompare)
      | _ => cases hv
  | compared hread hms _ => exact ⟨fun _ => ⟨_, _, _, rfl⟩, fun _ => ⟨_, _, _, _, hread, hms⟩⟩

end Checker

/-! ### The journal and the verdict -/

/-- What was written goes with the verdict of a probe of so many blocks: a warning was written
exactly if the verdict is no, one summary was written if every differentiation was completed and
none otherwise, and nothing else was written if the verdict is yes. -/
structure Mirrors (completed : Prop) (blocks : ℕ) (tolerance : α) (verdict : Bool)
    (entries : List Entry) : Prop where
  warned_iff : (∃ e ∈ entries, e.level = .warning) ↔ verdict = false
  summary : completed → ∃ worst, Scalar.le worst tolerance = verdict ∧
    entries.filter (·.level = .debug) = [comparisonSummary blocks worst tolerance]
  no_summary : ¬completed → entries.filter (·.level = .debug) = []
  passed : verdict = true → ∃ worst, entries = [comparisonSummary blocks worst tolerance]

/-- Warnings with one more behind them go with a probe that gave up. -/
theorem Mirrors.of_warning {completed : Prop} (hcompleted : ¬completed) {blocks : ℕ} {tolerance : α}
    {before : List Entry} (hbefore : Warnings before) (text : String) :
    Mirrors completed blocks tolerance false (before ++ [⟨.warning, text⟩]) where
  warned_iff := ⟨fun _ => rfl, fun _ => ⟨_, List.mem_append_right before (.head _), rfl⟩⟩
  summary h := absurd h hcompleted
  no_summary _ := by
    refine List.filter_eq_nil_iff.2 fun e he => ?_
    have hlevel : e.level = .warning :=
      warnings_append hbefore (fun _ h => by rw [List.mem_singleton.1 h]) e he
    rw [hlevel]
    decide
  passed := nofun

/-- What a comparison writes goes with its verdict. -/
theorem Mirrors.of_comparison {completed : Prop} (hcompleted : completed) (blocks : ℕ)
    (worst tolerance : α) : Mirrors completed blocks tolerance (Scalar.le worst tolerance)
      (comparisonEntries blocks worst tolerance) := by
  unfold comparisonEntries
  cases hle : Scalar.le worst tolerance with
  | true =>
      refine ⟨⟨?_, nofun⟩, fun _ => ⟨worst, hle, rfl⟩, absurd hcompleted, fun _ => ⟨worst, rfl⟩⟩
      rintro ⟨e, he, hlevel⟩
      cases List.mem_singleton.1 he
      cases hlevel
  | false =>
      exact ⟨⟨fun _ => rfl, fun _ => ⟨_, .tail _ (.head _), rfl⟩⟩, fun _ => ⟨worst, hle, rfl⟩,
        absurd hcompleted, nofun⟩

namespace Checker

variable {machine : Machine} {w w' : World σ} {parameters : List (Supplied α)} {tolerance : α}

/-- What a run that answers has written goes with its verdict. -/
theorem mirrors_of_run (hc : c.Reserved) {recording : Bool} {ending : Ending α} {verdict : Bool}
    (hrun : (c.run parameters tolerance recording).perform machine w = (.ok ending, w'))
    (hv : ending.verdict tolerance = .ok verdict) :
    ∃ blocks entries, readBlocks parameters c.sizes = .ok blocks ∧
      w'.journal = w.journal ++ entries ∧
      Mirrors (c.CompletesAt machine w blocks recording) blocks.length tolerance verdict
        entries := by
  obtain ⟨-, blocks, hblocks, hat⟩ := of_run_verdict hrun hv
  obtain ⟨entries, hjournal, hleaves⟩ := runAt_logs hc blocks tolerance recording machine w
  rw [hat] at hjournal hleaves
  refine ⟨blocks, entries, hblocks, hjournal, ?_⟩
  have hwritten := hleaves ending rfl
  have hcompletes := completesAt_iff hat hv
  cases ending with
  | refused fault => cases hv
  | faulted fault => cases hv
  | pointFailed =>
      obtain rfl := Except.ok.inj hv
      obtain ⟨before, hbefore, rfl⟩ := hwritten
      exact .of_warning (hcompletes.not.2 nofun) hbefore _
  | interrupted reading progress k fault =>
      cases fault with
      | evaluation cause =>
          obtain rfl := Except.ok.inj hv
          obtain ⟨before, hbefore, rfl⟩ := hwritten
          exact .of_warning (hcompletes.not.2 nofun) hbefore _
      | _ => cases hv
  | compared reading progress comparisons =>
      obtain rfl := Except.ok.inj hv
      obtain rfl : entries = _ := hwritten
      exact .of_comparison (hcompletes.2 ⟨_, _, _, rfl⟩) _ _ _

/-- **The journal mirrors the verdict.** The evaluator is made of functions that write nothing, or
writes nothing itself, and neither do the manifolds. Whenever a probe answers, with a record or
without one: a warning was written exactly if the answer is no; one summary was written if every
differentiation was completed, and none otherwise; and if the answer is yes, the summary is all that
was written. -/
theorem journal_mirrors_verdict (c : Checker σ α) (machine : Machine) (w : World σ)
    (parameters : List (Supplied α)) (tolerance : α)
    (he : (∃ f : Functions σ α, c.evaluator = f.toEvaluator ∧ f.Has fun _ a => a.Silent) ∨
      c.evaluator.Has fun _ a => a.Silent)
    (hm : ∀ space ∈ c.spaces, ∀ m ∈ space.manifold, m.Has fun _ a => a.Silent) :
    (∀ verdict w', (c.probe parameters tolerance).perform machine w = (.ok verdict, w') →
      ∃ blocks entries, readBlocks parameters c.sizes = .ok blocks ∧
        w'.journal = w.journal ++ entries ∧
        Mirrors (c.CompletesAt machine w blocks false) blocks.length tolerance verdict entries) ∧
    (∀ before verdict record w',
      (c.probeInto parameters tolerance before).perform machine w =
        (.ok (.ok verdict, record), w') →
      ∃ blocks entries, readBlocks parameters c.sizes = .ok blocks ∧
        w'.journal = w.journal ++ entries ∧
        Mirrors (c.CompletesAt machine w blocks true) blocks.length tolerance verdict entries) := by
  have hc : c.Reserved := by
    refine ⟨?_, hm⟩
    rcases he with ⟨f, hf, hsilent⟩ | hsilent
    · exact hf ▸ Functions.reserved hsilent
    · exact Evaluator.reserved_of_silent hsilent
  constructor
  · intro verdict w' h
    obtain ⟨ending, w₁, hrun, hv⟩ := Action.perform_bind_eq_ok_iff.1 h
    rw [Action.perform_ofExcept] at hv
    obtain ⟨hverdict, rfl⟩ := Prod.mk.inj hv
    exact mirrors_of_run hc hrun hverdict
  · intro before verdict record w' h
    obtain ⟨ending, hrun, hv, -⟩ := perform_probeInto_iff.1 h
    exact mirrors_of_run hc hrun hv

/-- With `x₁` held constant the check passes, and nothing but its summary is written. -/
theorem journal_mirrors_verdict_slanted :
    (slanted.Has fun _ a => a.Silent) ∧
      (∀ space ∈ slantedChecker.spaces, ∀ m ∈ space.manifold, m.Has fun _ a => a.Silent) ∧
      ∃ w' worst, (slantedChecker.probe slantedPoint 1e-9).perform plainMachine ⟨(), [], []⟩ =
          (.ok true, w') ∧
        w'.journal = [comparisonSummary 2 worst 1e-9] := by
  have hf := slanted_has (Action.chained_silent (σ := Unit))
  have hm := slantedChecker_manifolds_have (Action.chained_silent (σ := Unit))
  have hplain : ((slantedChecker.probe slantedPoint 1e-9).perform plainMachine ⟨(), [], []⟩).1 =
      .ok true := by decide +kernel
  obtain ⟨blocks, entries, hblocks, hjournal, hmirrors⟩ :=
    (journal_mirrors_verdict slantedChecker plainMachine ⟨(), [], []⟩ slantedPoint 1e-9
      (.inl ⟨slanted, rfl, hf⟩) hm).1 true _ (eq_mk_of_fst hplain)
  obtain rfl : slantedBlocks = blocks := Except.ok.inj hblocks
  obtain ⟨worst, rfl⟩ := hmirrors.passed rfl
  exact ⟨hf, hm, _, worst, eq_mk_of_fst hplain, hjournal⟩

end Checker

end JacobianAudit
