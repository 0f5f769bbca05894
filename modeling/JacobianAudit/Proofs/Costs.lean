/-
**What a probe costs.**

The functions under test may be slow, and so it matters how often a probe calls them. All calls are
counted here. At the point both functions are called, the Jacobian function only if the residuals
are usable, and it is never called again. What a numeric Jacobian costs is read off its itinerary: a
column takes one look for a forward difference, two for a central one, and two for each level of an
extrapolation. No look at the point is repeated, since the residuals there are known by then.

Main definitions:

* `JacobianAudit.CallCount`, `JacobianAudit.Functions.counted` — functions of which all calls are
  counted;
* `JacobianAudit.DiffOptions.ColumnCost` — what a column may cost;
* `JacobianAudit.BlockSpace.Billed` — what the numeric Jacobians of a block cost, column by column;
* `JacobianAudit.Functions.HasValue` — the residuals at a point are usable;
* `JacobianAudit.Checker.Serial` — there is no pool;
* `JacobianAudit.Checker.Enters` — a probe gets past its arguments;
* `JacobianAudit.Checker.Costs` — what a probe costs, depending on how it ends.

Main results:

* `JacobianAudit.Functions.cost_evaluate` — an evaluation with Jacobians calls each function at most
  once;
* `JacobianAudit.Site.Column.cost` — a column costs as many calls as it makes looks;
* `JacobianAudit.estimate_cost`, `JacobianAudit.Checker.Counted.differentiates_cost` — what numeric
  Jacobians cost;
* `JacobianAudit.Checker.Counted.differentiate_onlyLooks` — after the point was read, no Jacobians
  are asked for;
* `JacobianAudit.Checker.probe_cost` — **what a probe costs**.
-/

import JacobianAudit.Proofs.Endings
import JacobianAudit.Proofs.Itineraries

set_option autoImplicit false

namespace JacobianAudit

variable {σ α β : Type}

/-! ### Counting -/

/-- How often the residual function and the Jacobian function have been called. -/
@[ext]
structure CallCount where
  function : ℕ
  jacobian : ℕ
  deriving DecidableEq

namespace CallCount

instance : Zero CallCount := ⟨⟨0, 0⟩⟩

instance : Add CallCount := ⟨fun a b => ⟨a.function + b.function, a.jacobian + b.jacobian⟩⟩

@[simp] theorem function_zero : (0 : CallCount).function = 0 := rfl

@[simp] theorem jacobian_zero : (0 : CallCount).jacobian = 0 := rfl

@[simp] theorem function_add (a b : CallCount) : (a + b).function = a.function + b.function := rfl

@[simp] theorem jacobian_add (a b : CallCount) : (a + b).jacobian = a.jacobian + b.jacobian := rfl

theorem add_assoc (a b c : CallCount) : a + b + c = a + (b + c) := by
  ext <;> simp only [function_add, jacobian_add, Nat.add_assoc]

/-- CallCount of the residual function only. -/
def looks (n : ℕ) : CallCount := ⟨n, 0⟩

@[simp] theorem function_looks (n : ℕ) : (looks n).function = n := rfl

theorem looks_add (m n : ℕ) : looks (m + n) = looks m + looks n := rfl

/-- From one state to another the residual function was called and the Jacobian function was not. -/
def OnlyLooks (s s' : σ × CallCount) : Prop := ∃ n, s'.2 = s.2 + looks n

theorem inherited_onlyLooks : Action.Inherited fun _ a => Action.Moves (OnlyLooks (σ := σ)) a := by
  refine Action.inherited_moves (fun s => ⟨0, rfl⟩) ?_
  rintro s t u ⟨m, hm⟩ ⟨n, hn⟩
  exact ⟨m + n, by rw [hn, hm, add_assoc, looks_add]⟩

end CallCount

namespace Action

variable {γ ρ : Type}

/-- A sequence on a part of the state is a sequence of actions on that part. -/
theorem beside_bind (a : Action σ β) (f : β → Action σ γ) :
    (a >>= f).beside (ρ := ρ) = a.beside >>= fun x => (f x).beside := by
  refine ext_perform fun machine w => ?_
  rw [perform_beside, perform_bind, perform_bind, perform_beside]
  rcases a.perform machine { w with shared := w.shared.1 } with ⟨fault | x, w₁⟩
  · rfl
  · simp only [perform_beside]

theorem ofExcept_beside (answer : Except Fault β) :
    (ofExcept answer : Action σ β).beside (ρ := ρ) = ofExcept answer := by
  cases answer <;> rfl

/-- An action that leaves the callers' state as it is. -/
def Still (a : Action σ β) : Prop := a.Moves fun s s' => s' = s

theorem inherited_still : Inherited fun _ (a : Action σ _) => a.Still :=
  inherited_moves (fun _ => rfl) fun _ _ _ h h' => h'.trans h

/-- What is done with an answer does not matter to the state if it leaves it as it is. -/
theorem shared_bind_of_still {a : Action σ β} {f : β → Action σ γ} (h : ∀ x, (f x).Still)
    (machine : Machine) (w : World σ) :
    ((a >>= f).perform machine w).2.shared = (a.perform machine w).2.shared := by
  rw [perform_bind]
  rcases a.perform machine w with ⟨fault | x, w₁⟩
  · rfl
  · exact h x machine w₁

end Action

/-- An action on the first part of the state, the calls for it counted in the second. -/
def counting (cost : CallCount) (a : Action σ β) : Action (σ × CallCount) β := do
  Action.modifyShared fun s => ((), s.1, s.2 + cost)
  a.beside

theorem perform_counting (cost : CallCount) (a : Action σ β) (machine : Machine)
    (w : World (σ × CallCount)) :
    (counting cost a).perform machine w =
      let done := a.perform machine { w with shared := w.shared.1 }
      (done.1, { done.2 with shared := (done.2.shared, w.shared.2 + cost) }) := by
  unfold counting
  rw [Action.perform_bind, Action.perform_modifyShared]
  exact Action.perform_beside machine a _

theorem counting_bind {γ : Type} (cost : CallCount) (a : Action σ β) (f : β → Action σ γ) :
    (counting cost a >>= fun x => (f x).beside) = counting cost (a >>= f) := by
  refine Action.ext_perform fun machine w => ?_
  rw [Action.perform_bind, perform_counting, perform_counting, Action.perform_bind]
  rcases a.perform machine { w with shared := w.shared.1 } with ⟨fault | x, w₁⟩
  · rfl
  · simp only [Action.perform_beside]

namespace Functions

/-- Functions of which every call is counted. -/
def counted (f : Functions σ α) : Functions (σ × CallCount) α where
  function parameters := counting (.looks 1) (f.function parameters)
  jacobian := f.jacobian.map fun jacobian parameters => counting ⟨0, 1⟩ (jacobian parameters)
  blockSizes := f.blockSizes
  numResiduals := f.numResiduals

variable [Scalar α]

/-! ### An evaluation -/

/-- The residual function answers with usable residuals: as many as declared, and all finite. -/
def HasValue (f : Functions σ α) (machine : Machine) (w : World σ) (point : List (Supplied α)) :
    Prop :=
  ∃ reply w' residuals, (f.function point).perform machine w = (.ok reply, w') ∧
    reply.isNothing = false ∧ readResiduals reply (.whole f.numResiduals) = .ok residuals ∧
    residuals.all Scalar.isFinite = true

theorem hasValue_iff {f : Functions σ α} {machine : Machine} {w : World σ}
    {point : List (Supplied α)} : f.HasValue machine w point ↔
      ∃ residuals w', (f.residuals point).perform machine w = (.ok (some residuals), w') := by
  unfold residuals
  constructor
  · rintro ⟨reply, w', residuals, hreply, hnothing, hread, hfinite⟩
    refine ⟨residuals, w', ?_⟩
    rw [Action.perform_bind_of_ok hreply, hnothing, if_neg Bool.false_ne_true,
      Action.perform_ofExcept_bind hread, if_pos hfinite, Action.perform_pure]
  · rintro ⟨residuals, w', h⟩
    obtain ⟨reply, w₁, hreply, h⟩ := Action.perform_bind_eq_ok_iff.1 h
    split at h
    · cases (Prod.mk.inj h).1
    · rename_i hnothing
      obtain ⟨entries, w₂, hread, h⟩ := Action.perform_bind_eq_ok_iff.1 h
      rw [Action.perform_ofExcept, Prod.mk.injEq] at hread
      split at h
      · rename_i hfinite
        exact ⟨reply, w₁, entries, hreply, by simpa using hnothing, hread.1, hfinite⟩
      · cases (Prod.mk.inj h).1

/-- Counted residuals are the residuals, counted. -/
theorem residuals_counted (f : Functions σ α) (point : List (Supplied α)) :
    f.counted.residuals point = counting (.looks 1) (f.residuals point) := by
  refine Eq.trans ?_ (counting_bind _ _ _)
  refine congrArg (counting (.looks 1) (f.function point) >>= ·) (funext fun values => ?_)
  split
  · rfl
  · rw [Action.beside_bind, Action.ofExcept_beside]
    refine congrArg (Action.ofExcept _ >>= ·) (funext fun residuals => ?_)
    split <;> rfl

/-- Jacobians cost one call, if there is a function to be called. -/
theorem cost_jacobians (f : Functions σ α) (point : List (Supplied α)) (mask : List Bool)
    (machine : Machine) (w : World (σ × CallCount)) :
    ((f.counted.jacobians point mask).perform machine w).2.shared.2 =
      w.shared.2 + ⟨0, if f.jacobian.isSome then 1 else 0⟩ := by
  have hP := Action.inherited_still (σ := σ × CallCount)
  unfold jacobians counted
  cases f.jacobian with
  | none => rfl
  | some jacobian =>
      simp only [Option.map_some]
      rw [Action.shared_bind_of_still (fun answer => ?_), perform_counting]
      · rfl
      · cases answer with
        | none => exact hP.pure _
        | some full =>
            simp only []
            split
            · exact hP.bind (hP.ofExcept _) fun _ => hP.pure _
            · exact hP.throw _

/-- **An evaluation with Jacobians calls each function at most once**, and the Jacobian function
exactly if there is one and the residuals are usable. -/
theorem cost_evaluate (f : Functions σ α) (point : List (Supplied α)) {mask : List Bool}
    (hmask : mask.any id = true) (machine : Machine) (w : World (σ × CallCount)) :
    ∃ calls ≤ 1, ((f.counted.evaluate point (some mask)).perform machine w).2.shared.2 =
        w.shared.2 + ⟨1, calls⟩ ∧
      (calls = 1 ↔ f.HasValue machine { w with shared := w.shared.1 } point ∧
        f.jacobian.isSome = true) := by
  have hP := Action.inherited_still (σ := σ × CallCount)
  unfold evaluate
  rw [hasValue_iff, Action.perform_bind, residuals_counted, perform_counting]
  rcases (f.residuals point).perform machine { w with shared := w.shared.1 } with
    ⟨fault | _ | residuals, w₁⟩
  · exact ⟨0, by omega, rfl, by simp⟩
  · exact ⟨0, by omega, rfl, by simp⟩
  · refine ⟨if f.jacobian.isSome then 1 else 0, by split <;> omega, ?_, by
      cases f.jacobian <;> simp⟩
    simp only [if_pos hmask]
    rw [Action.shared_bind_of_still (fun answer => ?_), cost_jacobians, CallCount.add_assoc]
    · exact congrArg (w.shared.2 + ·) (CallCount.ext rfl (Nat.zero_add _))
    · cases answer with
      | none => exact hP.pure _
      | some jacobians => exact hP.pure _

/-- Without a request for Jacobians one call is all. -/
theorem cost_evaluate_none (f : Functions σ α) (point : List (Supplied α)) (machine : Machine)
    (w : World (σ × CallCount)) :
    ((f.counted.evaluate point none).perform machine w).2.shared.2 = w.shared.2 + .looks 1 := by
  unfold evaluate
  rw [Action.perform_bind, residuals_counted, perform_counting]
  rcases (f.residuals point).perform machine { w with shared := w.shared.1 } with
    ⟨fault | _ | residuals, w₁⟩ <;> rfl

end Functions

/-! ### A column -/

/-- What a column may cost: one call for a forward difference and two for a central one, and two for
each level of an extrapolation, of which there are two at least. -/
def DiffOptions.ColumnCost [Scalar α] (o : DiffOptions α) (cost : ℕ) : Prop :=
  match o.scheme with
  | .forward => cost = 1
  | .central => cost = 2
  | .ridders => ∃ m, 2 ≤ m ∧ m ≤ o.riddersLevels ∧ cost = 2 * m

section Looks

variable [Scalar α] {site : Site σ α} {machine : Machine} {o : DiffOptions α} {i : ℕ} {start : α}
  {w w' : World σ} {points : List (List (List α))} {scales : List α}

theorem Site.Looks.length_eq {step : α} {residuals : List α}
    (h : site.Looks machine i step w points (.ok residuals) w') : points.length = 1 := by
  cases h with
  | looked => rfl

/-- There was one look for all that has been seen. -/
theorem Site.Sees.length_eq {seen : List (List α)}
    (h : site.Sees machine o i start w seen points w') : points.length = seen.length := by
  induction h with
  | nothing => rfl
  | look _ _ hlooks ih => rw [List.length_append, List.length_append, ih, hlooks.length_eq,
      List.length_singleton]

/-- An extrapolation has no more levels than allowed: after the last one there is enough. -/
theorem Site.Sees.length_le {seen : List (List α)} (hscheme : o.scheme = .ridders)
    (h : site.Sees machine o i start w seen points w') : seen.length ≤ 2 * o.riddersLevels := by
  induction h with
  | nothing => exact Nat.zero_le _
  | @look seen _ _ _ _ _ _ hmore _ ih =>
      have hne : seen.length ≠ 2 * o.riddersLevels := by
        intro hlast
        refine hmore ?_
        unfold Enough
        rw [hscheme]
        exact ⟨o.riddersLevels, hlast, o.two_le_riddersLevels, .inl rfl⟩
      rw [List.length_append, List.length_singleton]
      omega

/-- **A column costs as many calls as it makes looks.** -/
theorem Site.Column.cost (h : site.Column machine o i start w points none w') :
    o.ColumnCost points.length := by
  cases h with
  | whole hsees henough =>
      rw [hsees.length_eq]
      unfold DiffOptions.ColumnCost
      unfold Enough at henough
      cases hscheme : o.scheme with
      | forward => simpa only [hscheme] using henough
      | central => simpa only [hscheme] using henough
      | ridders =>
          simp only [hscheme] at henough
          obtain ⟨m, hm, htwo, -⟩ := henough
          have hle := hsees.length_le hscheme
          exact ⟨m, htwo, by omega, hm⟩

/-- Columns one after the other, each with its cost. -/
theorem Site.Tours.exists_costs (h : site.Tours machine o scales w i points w') :
    ∃ costs : List ℕ, costs.length = i ∧ (∀ cost ∈ costs, o.ColumnCost cost) ∧
      points.length = costs.sum := by
  induction h with
  | start => exact ⟨[], rfl, nofun, rfl⟩
  | @column i _ _ more _ _ _ _ hcolumn ih =>
      obtain ⟨costs, hlength, hcosts, hsum⟩ := ih
      refine ⟨costs ++ [more.length], by rw [List.length_append, hlength, List.length_singleton],
        ?_, by rw [List.length_append, hsum, List.sum_append, List.sum_singleton]⟩
      intro cost hcost
      rcases List.mem_append.1 hcost with hcost | hcost
      · exact hcosts cost hcost
      · rw [List.mem_singleton.1 hcost]
        exact hcolumn.cost

/-- With given residuals, nothing is looked at before the first column. -/
theorem Starts.eq_nil_of_given {e : Evaluator σ α} {base : Supplied α} {blocks : List (List α)}
    {found : Except Fault (List α)}
    (h : Starts e machine o (some base) blocks w points found w') : points = [] := by
  cases h with
  | unneeded => rfl
  | given => rfl
  | looked _ hgiven => cases hgiven

/-- An itinerary from given residuals that comes to a Jacobian costs what its columns do. -/
theorem Itinerary.exists_costs {base : Supplied α} {t : Tensor α}
    (h : Itinerary site machine o (some base) scales w points (.ok t) w') :
    ∃ costs : List ℕ, costs.length = scales.length ∧ (∀ cost ∈ costs, o.ColumnCost cost) ∧
      points.length = costs.sum := by
  generalize hanswer : (Except.ok t : Except Fault (Tensor α)) = answer at h
  cases h with
  | nowhere hnone => exact ⟨[], congrArg List.length hnone.symm, nofun, rfl⟩
  | unstarted => cases hanswer
  | brokenOff => cases hanswer
  | finished _ hstarts htours =>
      rw [hstarts.eq_nil_of_given, List.nil_append]
      exact htours.exists_costs

end Looks

/-! ### A numeric Jacobian -/

/-- No call was counted. -/
def CallCount.Same (s s' : σ × CallCount) : Prop := s'.2 = s.2

theorem CallCount.inherited_same : Action.Inherited fun _ a => Action.Moves (Same (σ := σ)) a :=
  Action.inherited_moves (fun _ => rfl) fun _ _ _ h h' => h'.trans h

theorem Manifold.beside_same [Scalar α] (m : Manifold σ α) :
    (m.beside (ρ := CallCount)).Has fun _ a => a.Moves CallCount.Same := by
  refine m.beside_has CallCount.inherited_same fun β a machine w => ?_
  rw [Action.perform_beside]
  rfl

/-- There is a tangent coordinate for each scale. -/
theorem hasCoordinates_of_tangentScales [Scalar α] {shown : String} {block scales : List α}
    {manifold : Option (Manifold σ α)}
    (h : tangentScales shown block manifold = .ok (some scales)) :
    HasCoordinates manifold block.length scales.length := by
  unfold tangentScales at h
  cases manifold with
  | none =>
      obtain rfl := Option.some.inj (Except.ok.inj h)
      exact List.length_map _
  | some m =>
      simp only [] at h
      split at h
      · obtain ⟨shape, hshape, h⟩ := Except.bind_eq_ok_iff.1 h
        obtain ⟨hextents, -⟩ := of_ofSettings hshape
        split at h
        · cases h
        · rename_i hsequence
          obtain rfl := Option.some.inj (Except.ok.inj h)
          have hone : m.tangentSize.extents = [m.tangentSize] := by
            cases hsize : m.tangentSize with
            | list => exact absurd (by rw [hsize]; rfl) hsequence
            | text => exact absurd (by rw [hsize]; rfl) hsequence
            | _ => rfl
          rw [hone] at hextents
          obtain ⟨n, rfl⟩ : ∃ n, shape = [n] :=
            List.length_eq_one_iff.1 (by simpa using (congrArg List.length hextents).symm)
          show m.tangentSize = _
          rw [(List.cons.inj hextents).1, List.length_replicate]
          simp
      · cases h

/-- What was run was run with some number of workers. -/
theorem Workers.exists_resolve_of_run {setting : Setting} {tasks : List (Action σ β)}
    {machine : Machine} {w w' : World σ} {answers : List β}
    (h : (run setting tasks).perform machine w = (.ok answers, w')) :
    ∃ workers, resolve machine setting (.count tasks.length) = .ok workers := by
  unfold run at h
  rw [Action.perform_read_bind] at h
  obtain ⟨workers, w₁, hworkers, -⟩ := Action.perform_bind_eq_ok_iff.1 h
  rw [Action.perform_ofExcept, Prod.mk.injEq] at hworkers
  exact ⟨workers, hworkers.1⟩

section Estimate

variable [Scalar α] {f : Functions σ α} {manifold : Option (Manifold (σ × CallCount) α)}
  {machine : Machine}

/-- Each look is counted as one call of the residual function, and nothing else is. -/
theorem Functions.records_calls {site : Site (σ × CallCount) α}
    (he : site.evaluator = f.counted.toEvaluator)
    (hm : ∀ m ∈ site.manifold, m.Has fun _ a => a.Moves CallCount.Same) (machine : Machine) :
    site.Records machine fun points w w' => w'.shared.2 = w.shared.2 + .looks points.length where
  nothing _ := rfl
  append h h' := by rw [h', h, CallCount.add_assoc, List.length_append, CallCount.looks_add]
  called point w := by
    rw [he]
    exact f.cost_evaluate_none (point.map .vector) machine w
  moved m hmanifold x delta w := (hm m hmanifold).1 x delta machine w

variable [MeasuredScalar α] {o : DiffOptions α} {blocks : List (List α)} {k : ℕ} {block : List α}
  {base : Supplied α} {t : Tensor α} {w w' : World (σ × CallCount)}

/-- **A numeric Jacobian costs what its columns cost**, and there is a column for each tangent
coordinate. -/
theorem estimate_cost (hm : ∀ m ∈ manifold, m.Has fun _ a => a.Moves CallCount.Same)
    (hk : blocks[k]? = some block)
    (hserial : ∀ n, HasCoordinates manifold block.length n → ∀ workers,
      Workers.resolve machine o.workers (.count n) = .ok workers → workers ≤ 1)
    (h : (estimate f.counted.toEvaluator (blocks.map .vector) (.count k) manifold o
      (some base)).perform machine w = (.ok t, w')) :
    ∃ costs : List ℕ, HasCoordinates manifold block.length costs.length ∧
      (∀ cost ∈ costs, o.ColumnCost cost) ∧ w'.shared.2 = w.shared.2 + .looks costs.sum := by
  obtain ⟨scales, hscales, -⟩ := of_estimate hk h
  have hcoordinates := hasCoordinates_of_tangentScales hscales
  obtain ⟨hlt, hget⟩ := List.getElem?_eq_some_iff.1 hk
  have hblock : blockAt blocks (.count k) = .ok (k, block) := by rw [blockAt_count _ k hlt, hget]
  obtain ⟨read, w₁, hread, -⟩ := Action.perform_bind_eq_ok_iff.1 h
  rw [Action.perform_ofExcept, Prod.mk.injEq] at hread
  obtain rfl := (readBlocks_vector_iff.1 hread.1).1
  have hworkers : scales ≠ [] → ∃ workers ≤ 1,
      Workers.resolve machine o.workers (.count scales.length) = .ok workers := by
    intro hne
    have hdone := h
    rw [estimate_eq hread.1 hblock hscales hne] at hdone
    obtain ⟨start, w₂, -, hdone⟩ := Action.perform_bind_eq_ok_iff.1 hdone
    obtain ⟨columns, w₃, hrun, -⟩ := Action.perform_bind_eq_ok_iff.1 hdone
    obtain ⟨workers, hresolve⟩ := Workers.exists_resolve_of_run hrun
    rw [List.length_map, List.length_range] at hresolve
    exact ⟨workers, hserial _ hcoordinates workers hresolve, hresolve⟩
  rcases exists_itinerary hread.1 hblock hscales hworkers (some base) w with
    ⟨fault, -, hfault⟩ | ⟨points, hpoints⟩
  · rw [h] at hfault
    cases hfault
  · rw [h] at hpoints
    obtain ⟨costs, hlength, hcosts, hsum⟩ := hpoints.exists_costs
    refine ⟨costs, hlength ▸ hcoordinates, hcosts, ?_⟩
    rw [← hsum]
    exact (Functions.records_calls rfl hm machine).itinerary hpoints

end Estimate

/-! ### The blocks of a probe -/

/-- What the numeric Jacobians of a block cost, column by column. -/
structure Bill where
  tangent : List ℕ
  ambient : List ℕ

/-- What both of them cost. -/
def Bill.total (bill : Bill) : ℕ := bill.tangent.sum + bill.ambient.sum

/-- A bill has an item for each tangent coordinate of the block. If there is a record, and if the
block has a manifold, it has another one for each entry. -/
structure BlockSpace.Billed [Scalar α] (space : BlockSpace σ α) (o : DiffOptions α)
    (recording : Bool) (bill : Bill) : Prop where
  tangent : space.tangentSize = .count bill.tangent.length
  ambient : recording = true → space.manifold ≠ none → space.size = .count bill.ambient.length
  once : recording = false ∨ space.manifold = none → bill.ambient = []
  cost : ∀ cost ∈ bill.tangent ++ bill.ambient, o.ColumnCost cost

theorem BlockSpace.tangentSize_of_hasCoordinates {space : BlockSpace σ α} {n m : ℕ}
    (hn : space.size = .count n) (h : HasCoordinates space.manifold n m) :
    space.tangentSize = .count m := by
  unfold HasCoordinates at h
  unfold tangentSize
  cases hm : space.manifold with
  | none =>
      rw [hm] at h
      obtain rfl : m = n := h
      exact hn
  | some M =>
      rw [hm] at h
      exact h

namespace Checker

variable [Scalar α] {machine : Machine}

/-- Whatever block is differentiated, there is no pool. -/
def Serial (c : Checker σ α) (machine : Machine) : Prop :=
  ∀ space ∈ c.spaces, ∀ n : ℕ, space.size = .count n ∨ space.tangentSize = .count n →
    ∀ workers, Workers.resolve machine c.options.workers (.count n) = .ok workers → workers ≤ 1

/-- The calls of a checker are counted: its functions are, and its manifolds call neither. -/
structure Counted (c : Checker (σ × CallCount) α) (f : Functions σ α) : Prop where
  evaluator_eq : c.evaluator = f.counted.toEvaluator
  manifold : ∀ space ∈ c.spaces, ∀ m ∈ space.manifold, m.Has fun _ a => a.Moves CallCount.Same

variable {c : Checker (σ × CallCount) α} {f : Functions σ α} {blocks : List (List α)}
  {residuals : List α} {recording : Bool} {w w' : World (σ × CallCount)}

/-- The numeric Jacobians of a block are billed. -/
theorem Counted.numeric_cost [MeasuredScalar α] (hc : c.Counted f) (hserial : c.Serial machine)
    {k : ℕ} {space : BlockSpace (σ × CallCount) α} {block : List α} {tangent : Tensor α}
    {ambient : List (Tensor α)} (hspace : space ∈ c.spaces) (hk : blocks[k]? = some block)
    (hsize : space.size = .count block.length)
    (h : (c.numeric blocks residuals recording k space).perform machine w =
      (.ok (tangent, ambient), w')) :
    ∃ bill, space.Billed c.options recording bill ∧
      w'.shared.2 = w.shared.2 + .looks bill.total := by
  have hmanifold := hc.manifold space hspace
  unfold numeric at h
  rw [hc.evaluator_eq] at h
  obtain ⟨t, w₁, ht, h⟩ := Action.perform_bind_eq_ok_iff.1 h
  obtain ⟨costs, hcoordinates, hcosts, hw₁⟩ := estimate_cost hmanifold hk
    (fun n hn => hserial space hspace n (.inr (space.tangentSize_of_hasCoordinates hsize hn))) ht
  have htangent := BlockSpace.tangentSize_of_hasCoordinates hsize hcoordinates
  -- without a second Jacobian the bill has no second part
  have hbilled : recording = false ∨ space.manifold = none →
      space.Billed c.options recording ⟨costs, []⟩ := by
    intro hone
    refine ⟨htangent, fun hr hm => ?_, fun _ => rfl, by simpa using hcosts⟩
    rcases hone with hone | hone
    · rw [hr] at hone
      cases hone
    · exact absurd hone hm
  cases recording with
  | false =>
      obtain ⟨-, rfl⟩ := Prod.mk.inj h
      exact ⟨_, hbilled (.inl rfl), hw₁⟩
  | true =>
      simp only [Bool.not_true, Bool.false_eq_true, if_false] at h
      split at h
      · rename_i hnone
        obtain ⟨-, rfl⟩ := Prod.mk.inj h
        exact ⟨_, hbilled (.inr hnone), hw₁⟩
      · rename_i hsome
        obtain ⟨a, w₂, ha, h⟩ := Action.perform_bind_eq_ok_iff.1 h
        obtain ⟨-, rfl⟩ := Prod.mk.inj h
        -- along its entries the block is differentiated as if it had no manifold
        have hentries : ∀ n, HasCoordinates (none : Option (Manifold (σ × CallCount) α))
            block.length n → space.size = .count n := by
          intro n hn
          rw [hsize, show n = block.length from hn]
        have hnobody : ∀ m ∈ (none : Option (Manifold (σ × CallCount) α)),
            m.Has fun _ a => a.Moves CallCount.Same := nofun
        obtain ⟨more, hlength, hmore, hw₂⟩ := estimate_cost hnobody hk
          (fun n hn => hserial space hspace n (.inl (hentries n hn))) ha
        refine ⟨⟨costs, more⟩, ⟨htangent, fun _ _ => hentries _ hlength, ?_, ?_⟩, ?_⟩
        · rw [hsome]
          nofun
        · intro cost hcost
          exact (List.mem_append.1 hcost).elim (hcosts cost) (hmore cost)
        · rw [hw₂, hw₁, CallCount.add_assoc, ← CallCount.looks_add, Bill.total]

/-- A projection calls neither function. -/
theorem Counted.project_cost (hc : c.Counted f) {space : BlockSpace (σ × CallCount) α}
    (hspace : space ∈ c.spaces) {jacobian point : Supplied α} {answer : Except Fault (Tensor α)}
    (h : (project jacobian space.manifold point).perform machine w = (answer, w')) :
    w'.shared.2 = w.shared.2 := by
  have hstill := project_inherits CallCount.inherited_same.chained (hc.manifold space hspace)
    jacobian point
    machine w
  rwa [h] at hstill

/-- **What numeric Jacobians cost**: all blocks are billed one after the other. -/
theorem Counted.differentiates_cost [MeasuredScalar α] (hc : c.Counted f)
    (hserial : c.Serial machine)
    {todo : List (ℕ × BlockSpace (σ × CallCount) α × List α × Tensor α)}
    {ms : List (BlockMatrices α)}
    (htodo : ∀ task ∈ todo, task.2.1 ∈ c.spaces ∧ blocks[task.1]? = some task.2.2.1 ∧
      task.2.1.size = .count task.2.2.1.length)
    (h : c.Differentiates machine blocks residuals recording todo w ms w') :
    ∃ bills, List.Forall₂ (fun space bill => space.Billed c.options recording bill)
        (todo.map fun task => task.2.1) bills ∧
      w'.shared.2 = w.shared.2 + .looks (bills.map Bill.total).sum := by
  induction h with
  | nil => exact ⟨[], .nil, rfl⟩
  | cons hp hn _ ih =>
      obtain ⟨hspace, hblock, hsize⟩ := htodo _ List.mem_cons_self
      obtain ⟨bill, hbill, hw₂⟩ := hc.numeric_cost hserial hspace hblock hsize hn
      obtain ⟨bills, hbills, hw₃⟩ := ih fun task ht => htodo task (List.mem_cons_of_mem _ ht)
      refine ⟨bill :: bills, .cons hbill hbills, ?_⟩
      rw [hw₃, hw₂, hc.project_cost hspace hp, CallCount.add_assoc, ← CallCount.looks_add,
        List.map_cons, List.sum_cons]

end Checker

/-! ### Without requests -/

/-- An evaluator that is never asked for Jacobians, whatever the request. -/
def Evaluator.withoutRequests (e : Evaluator σ α) : Evaluator σ α where
  blockSizes := e.blockSizes
  numResiduals := e.numResiduals
  evaluate parameters _ := e.evaluate parameters none

namespace Checker

variable [Scalar α]

/-- A checker of such an evaluator differentiates in the same way. -/
theorem differentiate_withoutRequests (c : Checker σ α) (blocks : List (List α))
    (reading : Reading α) (recording : Bool)
    (todo : List (ℕ × BlockSpace σ α × List α × Tensor α)) (progress : Progress α) :
    ({ c with evaluator := c.evaluator.withoutRequests } : Checker σ α).differentiate blocks reading
      recording todo progress = c.differentiate blocks reading recording todo progress := by
  induction todo generalizing progress with
  | nil => rfl
  | cons task rest ih =>
      obtain ⟨k, space, block, jacobian⟩ := task
      unfold differentiate
      simp only [ih]
      rfl

end Checker

theorem Manifold.Has.mono [Scalar α] {P Q : (β : Type) → Action σ β → Prop} {m : Manifold σ α}
    (h : m.Has P) (hPQ : ∀ (β : Type) (a : Action σ β), P β a → Q β a) : m.Has Q :=
  ⟨fun x delta => hPQ _ _ (h.1 x delta), fun x => hPQ _ _ (h.2 x)⟩

/-! ### A probe -/

namespace Checker

variable [Scalar α]

/-- A probe gets past its arguments, and it is these blocks that it starts from. -/
structure Enters (c : Checker σ α) (parameters : List (Supplied α)) (tolerance : α)
    (recording : Bool) (blocks : List (List α)) : Prop where
  tolerance : Scalar.le Scalar.zero tolerance = true
  blocks_eq : readBlocks parameters c.sizes = .ok blocks
  clears : recording = true → c.Clears

/-- The messages of a probe change nothing: its state is the one after the last block. -/
theorem shared_perform_runAt (c : Checker σ α) (machine : Machine) (w : World σ)
    (blocks : List (List α)) (tolerance : α) (recording : Bool) :
    ((c.runAt blocks tolerance recording).perform machine w).2.shared =
      match (c.read blocks).perform machine w with
      | (.ok (some reading), w₁) => ((c.differentiate blocks reading recording
          (c.tasks blocks reading.jacobians) {}).perform machine w₁).2.shared
      | (_, w₁) => w₁.shared := by
  have hP := Action.inherited_still (σ := σ)
  unfold runAt
  rw [Action.perform_attempt_bind]
  rcases (c.read blocks).perform machine w with ⟨fault | _ | reading, w₁⟩
  · rfl
  · rfl
  · refine Action.shared_bind_of_still (fun done => ?_) machine w₁
    rcases done with ⟨progress, _ | ⟨k, fault⟩⟩
    · simp only []
      cases compare progress tolerance with
      | error fault => exact hP.pure _
      | ok comparisons => exact hP.bind (logComparison_inherits hP _ _ _) fun _ => hP.pure _
    · cases fault with
      | evaluation cause => exact hP.bind (hP.log _ _) fun _ => hP.pure _
      | _ => exact hP.pure _

variable {c : Checker (σ × CallCount) α} {f : Functions σ α} {blocks : List (List α)}
  {machine : Machine} {w : World (σ × CallCount)}

/-- What it costs to read the point. -/
theorem Counted.read_cost (hc : c.Counted f) (hne : blocks ≠ []) (machine : Machine)
    (w : World (σ × CallCount)) :
    ∃ calls ≤ 1, ((c.read blocks).perform machine w).2.shared.2 = w.shared.2 + ⟨1, calls⟩ ∧
      (calls = 1 ↔ f.HasValue machine { w with shared := w.shared.1 } (blocks.map .vector) ∧
        f.jacobian.isSome = true) := by
  have hP := Action.inherited_still (σ := σ × CallCount)
  have hmask : (blocks.map fun _ => true).any id = true := by
    obtain ⟨block, rest, rfl⟩ := List.exists_cons_of_ne_nil hne
    rfl
  unfold read
  rw [Action.shared_bind_of_still (fun answer => ?_), hc.evaluator_eq]
  · exact f.cost_evaluate (blocks.map .vector) hmask machine w
  · cases answer with
    | none => exact hP.pure _
    | some answer =>
        refine hP.bind (hP.ofExcept _) fun residuals => ?_
        cases answer.jacobians with
        | none => exact hP.throw _
        | some jacobians =>
            simp only []
            split
            · exact hP.bind (hP.ofExcept _) fun _ => hP.pure _
            · exact hP.throw _

/-- After the point was read, no Jacobians are asked for. -/
theorem Counted.differentiate_onlyLooks (hc : c.Counted f) (blocks : List (List α))
    (reading : Reading α) (recording : Bool) (progress : Progress α) :
    (c.differentiate blocks reading recording (c.tasks blocks reading.jacobians) progress).Moves
      CallCount.OnlyLooks := by
  rw [← differentiate_withoutRequests]
  refine differentiate_inherits CallCount.inherited_onlyLooks ?_ ?_ _ _ _ _
  · intro parameters _ machine w
    show CallCount.OnlyLooks _ ((c.evaluator.evaluate parameters none).perform machine w).2.shared
    rw [hc.evaluator_eq]
    exact ⟨1, f.cost_evaluate_none parameters machine w⟩
  · rintro ⟨k, space, block, jacobian⟩ ht m hm
    refine (hc.manifold space (List.mem_of_getElem? (mem_tasks_iff.1 ht).1) m hm).mono ?_
    exact fun β a ha machine w => ⟨0, ha machine w⟩

/-- What a probe at a point costs, if it ends in this way: one call of the residual function at the
point and so many looks after that, and so many calls of the Jacobian function. -/
structure Costs (c : Checker (σ × CallCount) α) (f : Functions σ α) (machine : Machine)
    (w : World (σ × CallCount)) (blocks : List (List α)) (recording : Bool) (ending : Ending α)
    (looks jacobians : ℕ) : Prop where
  /-- The Jacobian function is called once at most. -/
  jacobians_le : jacobians ≤ 1
  /-- It is called if there is one and the residuals at the point are usable. -/
  jacobians_iff : jacobians = 1 ↔
    f.HasValue machine { w with shared := w.shared.1 } (blocks.map .vector) ∧
      f.jacobian.isSome = true
  /-- There are no looks if the evaluation at the point fails. -/
  failed : (ending = .pointFailed ∨ ∃ fault, ending = .faulted fault) → looks = 0
  /-- If all blocks get to be compared, one after the other, all looks are billed. -/
  compared : c.Serial machine → ∀ reading progress comparisons,
    ending = .compared reading progress comparisons →
    ∃ bills, List.Forall₂ (fun space bill => space.Billed c.options recording bill) c.spaces bills ∧
      looks = (bills.map Bill.total).sum

variable {recording : Bool} {tolerance : α} {ending : Ending α} {w' : World (σ × CallCount)}
  {parameters : List (Supplied α)}

/-- After the point, the calls of a probe at a point are the looks of its numeric Jacobians. -/
theorem Counted.exists_looks (hc : c.Counted f) (hne : blocks ≠ [])
    (h : (c.runAt blocks tolerance recording).perform machine w = (.ok ending, w')) :
    ∃ looks jacobians, w'.shared.2 = w.shared.2 + ⟨1 + looks, jacobians⟩ ∧ jacobians ≤ 1 ∧
      (jacobians = 1 ↔ f.HasValue machine { w with shared := w.shared.1 } (blocks.map .vector) ∧
        f.jacobian.isSome = true) ∧
      ((ending = .pointFailed ∨ ∃ fault, ending = .faulted fault) → looks = 0) ∧
      ∀ reading done w₁ w₂, (c.read blocks).perform machine w = (.ok (some reading), w₁) →
        (c.differentiate blocks reading recording (c.tasks blocks reading.jacobians) {}).perform
          machine w₁ = (done, w₂) → w₂.shared.2 = w₁.shared.2 + .looks looks := by
  obtain ⟨jacobians, hle, hread, hjacobians⟩ := hc.read_cost hne machine w
  have hshared := c.shared_perform_runAt machine w blocks tolerance recording
  have hends := ends_of_runAt h
  rw [h] at hshared
  rcases hr : (c.read blocks).perform machine w with ⟨fault | _ | reading, w₁⟩ <;>
    rw [hr] at hshared hread
  · exact ⟨0, jacobians, by rw [hshared, hread], hle, hjacobians, fun _ => rfl, nofun⟩
  · exact ⟨0, jacobians, by rw [hshared, hread], hle, hjacobians, fun _ => rfl, nofun⟩
  · obtain ⟨looks, hlooks⟩ := hc.differentiate_onlyLooks blocks reading recording {} machine w₁
    have hw' : w'.shared.2 = w.shared.2 + ⟨1 + looks, jacobians⟩ := by
      rw [hshared, hlooks, hread, CallCount.add_assoc]
      rfl
    refine ⟨looks, jacobians, hw', hle, hjacobians, ?_, ?_⟩
    · -- the evaluation at the point did not fail
      rintro (rfl | ⟨fault, rfl⟩)
      · cases hends with
        | pointFailed hnone => cases (Prod.mk.inj (hr.symm.trans hnone)).1
      · cases hends with
        | faulted hfault => cases (Prod.mk.inj (hr.symm.trans hfault)).1
    · intro _ done _ w₂ hsame hd
      obtain ⟨hreading, rfl⟩ := Prod.mk.inj hsame
      obtain rfl := Option.some.inj (Except.ok.inj hreading)
      rwa [hd] at hlooks

/-- The spaces of a probe are those of its tasks. -/
theorem map_tasks (c : Checker σ α) {blocks : List (List α)} {jacobians : List (Tensor α)}
    (hb : blocks.length = c.spaces.length) (hj : jacobians.length = c.spaces.length) :
    (c.tasks blocks jacobians).map (fun task => task.2.1) = c.spaces := by
  refine List.ext_getElem (by rw [List.length_map, c.length_tasks hb hj]) fun k hk hk' => ?_
  rw [List.getElem_map]
  have htask := List.getElem?_eq_getElem (l := c.tasks blocks jacobians) (by simpa using hk)
  obtain ⟨-, hspace, -⟩ := getElem?_tasks_iff.1 htask
  exact (List.getElem?_eq_some_iff.1 hspace).2.symm

/-- **What a probe at a point costs.** -/
theorem Counted.runAt_cost [MeasuredScalar α] (hc : c.Counted f) (hne : blocks ≠ [])
    (hlength : blocks.length = c.spaces.length)
    (hsize : ∀ (k : ℕ) (space : BlockSpace (σ × CallCount) α) (block : List α),
      c.spaces[k]? = some space → blocks[k]? = some block → space.size = .count block.length)
    (h : (c.runAt blocks tolerance recording).perform machine w = (.ok ending, w')) :
    ∃ looks jacobians, w'.shared.2 = w.shared.2 + ⟨1 + looks, jacobians⟩ ∧
      c.Costs f machine w blocks recording ending looks jacobians := by
  obtain ⟨looks, jacobians, hw', hle, hjacobians, hfailed, hlooks⟩ := hc.exists_looks hne h
  refine ⟨looks, jacobians, hw', hle, hjacobians, hfailed, ?_⟩
  rintro hserial reading progress comparisons rfl
  obtain ⟨w₁, ms, w₂, hread, hms, -, -⟩ := (ends_of_runAt h).of_compared
  have hlooks := hlooks reading _ w₁ w₂ hread (differentiate_eq_none_iff.2 ⟨ms, hms, rfl⟩)
  have htasks : ∀ task ∈ c.tasks blocks reading.jacobians, task.2.1 ∈ c.spaces ∧
      blocks[task.1]? = some task.2.2.1 ∧ task.2.1.size = .count task.2.2.1.length := by
    rintro ⟨k, space, block, jacobian⟩ ht
    obtain ⟨hs, hb, -⟩ := mem_tasks_iff.1 ht
    exact ⟨List.mem_of_getElem? hs, hb, hsize k space block hs hb⟩
  obtain ⟨bills, hbills, hcost⟩ := hc.differentiates_cost hserial htasks hms
  rw [c.map_tasks hlength (length_of_read hlength hread)] at hbills
  have hsum := congrArg CallCount.function (hlooks.symm.trans hcost)
  exact ⟨bills, hbills, by simpa using hsum⟩

/-- A probe that does not get past its arguments leaves everything as it is. -/
theorem run_of_not_enters {c : Checker σ α}
    (h : ∀ blocks, ¬c.Enters parameters tolerance recording blocks) (machine : Machine)
    (w : World σ) : ((c.run parameters tolerance recording).perform machine w).2 = w := by
  by_cases ht : Scalar.le Scalar.zero tolerance = true
  · cases hb : readBlocks parameters c.sizes with
    | error fault =>
        unfold run
        simp only [ht, hb]
        rfl
    | ok blocks =>
        cases recording with
        | false => exact absurd ⟨ht, hb, nofun⟩ (h blocks)
        | true =>
            obtain ⟨ending, w', hrun, ⟨hclears, -⟩ | ⟨-, _, -, -, rfl⟩⟩ :=
              exists_ending (c := c) machine w ht hb
            · exact absurd ⟨ht, hb, fun _ => hclears⟩ (h blocks)
            · rw [hrun]
  · unfold run
    rw [Bool.not_eq_true] at ht
    rw [ht]
    rfl

/-- A block that is read with a size that is an integer has so many entries. -/
theorem size_of_readBlocks {c : Checker σ α} {sizes : List ℤ} (hsizes : c.sizes = sizes.map .whole)
    (hb : readBlocks parameters c.sizes = .ok blocks) {k : ℕ} {space : BlockSpace σ α}
    {block : List α} (hs : c.spaces[k]? = some space) (hk : blocks[k]? = some block) :
    space.size = .count block.length := by
  obtain ⟨hlt, rfl⟩ := List.getElem?_eq_some_iff.1 hk
  have hlt' : k < c.sizes.length := length_of_readBlocks hb ▸ hlt
  have hsize : c.sizes[k] = space.size := by
    obtain ⟨_, rfl⟩ := List.getElem?_eq_some_iff.1 hs
    exact List.getElem_map _
  have hequals := equals_of_readBlocks hb k hlt hlt'
  have hmem : c.sizes[k] ∈ sizes.map Setting.whole := hsizes ▸ List.getElem_mem hlt'
  rw [hsize] at hequals hmem
  obtain ⟨n, -, hn⟩ := List.mem_map.1 hmem
  rw [← hn, Setting.equals_whole, decide_eq_true_eq] at hequals
  rw [← hn, hequals]

/-- **What a probe costs.** A probe that does not get past its arguments calls nobody. Otherwise it
calls the residual function once at the point, and the Jacobian function once if there is one and
these residuals are usable, and not at all if not. If the evaluation at the point fails, that was
all. If there is no pool and all blocks get to be compared, the residual function has been called as
often again as the numeric Jacobians are billed for: for each block one column for each tangent
coordinate, and with a record also one for each entry of a block that has a manifold. -/
theorem probe_cost [MeasuredScalar α] {f : Functions σ α}
    {manifolds : Option (List (Option (Manifold σ α)))} {options : DiffOptions α} {cap : Setting}
    {c : Checker (σ × CallCount) α} (hmake : make f.counted.toEvaluator
      (manifolds.map fun given => given.map fun m => m.map Manifold.beside) options cap = .ok c)
    (parameters : List (Supplied α)) (tolerance : α) (machine : Machine)
    (w : World (σ × CallCount)) :
    ((c.probe parameters tolerance).perform machine w).2 =
      ((c.run parameters tolerance false).perform machine w).2 ∧
    (∀ before, ((c.probeInto parameters tolerance before).perform machine w).2 =
      ((c.run parameters tolerance true).perform machine w).2) ∧
    ∀ recording,
      ((∀ blocks, ¬c.Enters parameters tolerance recording blocks) →
        ((c.run parameters tolerance recording).perform machine w).2 = w) ∧
      ∀ blocks, c.Enters parameters tolerance recording blocks →
        ∃ ending w' looks jacobians,
          (c.run parameters tolerance recording).perform machine w = (.ok ending, w') ∧
          w'.shared.2 = w.shared.2 + ⟨1 + looks, jacobians⟩ ∧
          c.Costs f machine w blocks recording ending looks jacobians := by
  obtain ⟨hevaluator, -, ⟨sizes, haccepted, hsizes⟩, -⟩ := of_make hmake
  obtain ⟨rfl, hne⟩ := readSizes_whole haccepted
  have hcounted : c.Counted f := by
    refine ⟨hevaluator, fun space hspace m hm => ?_⟩
    obtain ⟨original, rfl⟩ := exists_beside_of_make hmake hspace hm
    exact original.beside_same
  refine ⟨Action.snd_perform_bind_ofExcept _ _ _ _, fun before => ?_, fun recording =>
    ⟨fun h => run_of_not_enters h machine w, fun blocks henters => ?_⟩⟩
  · unfold probeInto
    rw [Action.perform_bind]
    rcases (c.run parameters tolerance true).perform machine w with ⟨fault | ending, w'⟩ <;> rfl
  · have hb := henters.blocks_eq
    have hlength : blocks.length = c.spaces.length := by
      rw [length_of_readBlocks hb, Checker.sizes, List.length_map]
    have hblocks : blocks ≠ [] := by
      rintro rfl
      refine hne (List.eq_nil_of_length_eq_zero ?_)
      simpa [hsizes] using (length_of_readBlocks hb).symm
    obtain ⟨ending, w', hrun, -⟩ :=
      (c.runAt_answers blocks tolerance recording).exists_ok machine w
    obtain ⟨looks, jacobians, hw', hcosts⟩ := hcounted.runAt_cost hblocks hlength
      (fun k space block => size_of_readBlocks hsizes hb) hrun
    rw [run_eq_runAt henters.tolerance hb henters.clears]
    exact ⟨ending, w', looks, jacobians, hrun, hw', hcosts⟩

end Checker

/-- The checker that holds `x₁` constant, with the calls of its functions counted. -/
def slantedCounted : Checker (Unit × CallCount) Float where
  evaluator := slanted.counted.toEvaluator
  spaces := [firstFree, .plain (.count 1)]
  options := DiffOptions.standard
  cap := defaultCap

/-- The manifolds of its blocks. -/
def slantedManifolds : Option (List (Option (Manifold Unit Float))) :=
  some [some (.subset secondConstant), none]

/-- One worker was asked for. -/
theorem slantedCounted_serial : slantedCounted.Serial plainMachine := by
  intro space _ n _ workers hworkers
  obtain rfl : 1 = workers := Except.ok.inj hworkers
  exact le_rfl

/-- One column for the coordinate that is free, two for the entries of its block, and one for the
other block, with two levels each. -/
theorem probe_cost_slanted :
    Checker.make slanted.counted.toEvaluator
        (slantedManifolds.map fun given => given.map fun m => m.map Manifold.beside)
        DiffOptions.standard (.whole defaultCap) = .ok slantedCounted ∧
      slantedCounted.Enters slantedPoint 1e-9 true slantedBlocks ∧
      ∃ ending w', (slantedCounted.run slantedPoint 1e-9 true).perform plainMachine
          ⟨((), 0), [], []⟩ = (.ok ending, w') ∧ w'.shared.2 = ⟨1 + 16, 1⟩ ∧
        slantedCounted.Costs slanted plainMachine ⟨((), 0), [], []⟩ slantedBlocks true ending 16
          1 ∧
        ∃ bills, List.Forall₂ (fun space bill => space.Billed DiffOptions.standard true bill)
            slantedCounted.spaces bills ∧
          bills.map (fun bill => (bill.tangent.length, bill.ambient.length)) = [(1, 2), (1, 0)] ∧
          (bills.map Bill.total).sum = 16 := by
  have hmake : Checker.make slanted.counted.toEvaluator
      (slantedManifolds.map fun given => given.map fun m => m.map Manifold.beside)
      DiffOptions.standard (.whole defaultCap) = .ok slantedCounted := rfl
  have henters : slantedCounted.Enters slantedPoint 1e-9 true slantedBlocks :=
    ⟨by decide +kernel, rfl, fun _ => rfl⟩
  obtain ⟨-, -, hcost⟩ := Checker.probe_cost hmake slantedPoint 1e-9 plainMachine
    ⟨((), 0), [], []⟩
  obtain ⟨ending, w', looks, jacobians, hrun, hw', hcosts⟩ := (hcost true).2 slantedBlocks henters
  have hcalls : ((slantedCounted.run slantedPoint 1e-9 true).perform plainMachine
      ⟨((), 0), [], []⟩).2.shared.2 = ⟨1 + 16, 1⟩ := by decide +kernel
  have hverdict : (((slantedCounted.run slantedPoint 1e-9 true).perform plainMachine
      ⟨((), 0), [], []⟩).1.bind fun ending => ending.verdict 1e-9) = .ok true := by decide +kernel
  rw [hrun] at hcalls hverdict
  have hsum := hw'.symm.trans hcalls
  have hlooks : 1 + looks = 17 := by simpa using congrArg CallCount.function hsum
  obtain rfl : looks = 16 := by omega
  obtain rfl : jacobians = 1 := by simpa using congrArg CallCount.jacobian hsum
  refine ⟨hmake, henters, ending, w', hrun, hcalls, hcosts, ?_⟩
  -- the probe passes, and so all blocks were compared
  obtain ⟨reading, progress, comparisons, hending, -⟩ := Checker.of_verdict_true hverdict
  obtain ⟨bills, hbills, htotal⟩ :=
    hcosts.compared slantedCounted_serial reading progress comparisons hending
  refine ⟨bills, hbills, ?_, htotal.symm⟩
  cases hbills with
  | cons hfirst hrest =>
      cases hrest with
      | cons hsecond hnone =>
          cases hnone
          rw [List.map_cons, List.map_singleton, hsecond.once (.inr rfl),
            ← Int.ofNat.inj (Setting.whole.inj hfirst.tangent),
            ← Int.ofNat.inj (Setting.whole.inj (hfirst.ambient rfl nofun)),
            ← Int.ofNat.inj (Setting.whole.inj hsecond.tangent)]
          rfl

end JacobianAudit
