/-
**Where a differentiator looks.**

Without a pool, a numeric Jacobian is made column after column. A forward difference starts with a
look at the point itself, unless the residuals there are given. Each column then makes its looks,
with the step that belongs to its scale, and the first look that fails ends everything: there is no
Jacobian, and the fault is the one of that look.

All calls of the evaluator are observed by a trace, and so the points of an itinerary are all that
is looked at, and they are looked at in this order. The one exception are settings with a power of
the shrink factor that is too large. They leave out whole columns, although no look has failed.

Main definitions:

* `JacobianAudit.Starts` — what is done before the first column;
* `JacobianAudit.Site.Tours`, `JacobianAudit.Site.Runs` — columns one after the other, and what
  they come to;
* `JacobianAudit.Itinerary` — the looks for a Jacobian;
* `JacobianAudit.Site.observed` — calls of the evaluator are observed;
* `JacobianAudit.marks`, `JacobianAudit.Event.point` — what the looks leave behind, and how a point
  is read off from it;
* `JacobianAudit.Site.Records` — what is known about the world after some looks.

Main results:

* `JacobianAudit.Site.runs_columns` — columns that are run one after the other;
* `JacobianAudit.Site.Records.itinerary` — what looks leave behind, an itinerary leaves behind;
* `JacobianAudit.map_point_marks` — the points can be read off from the trace;
* `JacobianAudit.Itinerary.trace_eq` — an itinerary leaves its points behind and nothing else;
* `JacobianAudit.Itinerary.misses` — how an itinerary breaks off;
* `JacobianAudit.estimate_itinerary` — **a differentiator keeps to its itinerary**;
* `JacobianAudit.itinerary_abandoned` — a power that is too large keeps it from doing so.
-/

import JacobianAudit.Proofs.Escapes
import JacobianAudit.Proofs.Looks
import JacobianAudit.Proofs.Threads

set_option autoImplicit false

namespace JacobianAudit

variable {σ α : Type} [Scalar α]

/-! ### From the first look to the last -/

/-- What is done before the first column: a forward difference starts from residuals, either those
that are given or those that are seen at the point. The other schemes need none. -/
inductive Starts (e : Evaluator σ α) (machine : Machine) (o : DiffOptions α)
    (given : Option (Supplied α)) (blocks : List (List α)) (w : World σ) :
    List (List (List α)) → Except Fault (List α) → World σ → Prop
  | unneeded : o.scheme ≠ .forward → Starts e machine o given blocks w [] (.ok []) w
  | given {base : Supplied α} : o.scheme = .forward → given = some base →
      Starts e machine o given blocks w [] (readResiduals base e.numResiduals) w
  | looked {base : Except Fault (List α)} {w' : World σ} : o.scheme = .forward → given = none →
      e.Shows machine (.evaluation .residuals) blocks w base w' →
      Starts e machine o given blocks w [blocks] base w'

/-- The columns before one of them, one after the other, each with its scale. -/
inductive Site.Tours (site : Site σ α) (machine : Machine) (o : DiffOptions α) (scales : List α)
    (w : World σ) : ℕ → List (List (List α)) → World σ → Prop
  | start : Tours site machine o scales w 0 [] w
  | column {i : ℕ} {scale : α} {points more : List (List (List α))} {w₁ w₂ : World σ} :
      Tours site machine o scales w i points w₁ → scales[i]? = some scale →
      site.Column machine o i (o.stepSize scale) w₁ more none w₂ →
      Tours site machine o scales w (i + 1) (points ++ more) w₂

/-- The looks for a Jacobian, and what they come to. -/
inductive Itinerary (site : Site σ α) (machine : Machine) (o : DiffOptions α)
    (given : Option (Supplied α)) (scales : List α) (w : World σ) :
    List (List (List α)) → Except Fault (Tensor α) → World σ → Prop
  /-- There is nowhere to go without a tangent coordinate. -/
  | nowhere : scales = [] → Itinerary site machine o given scales w []
      (Tensor.zeros [site.evaluator.numResiduals, .count 0]) w
  /-- There are no residuals to start from. -/
  | unstarted {points : List (List (List α))} {fault : Fault} {w' : World σ} : scales ≠ [] →
      Starts site.evaluator machine o given site.blocks w points (.error fault) w' →
      Itinerary site machine o given scales w points (.error fault) w'
  /-- A look fails on the way. -/
  | brokenOff {i : ℕ} {scale : α} {first before points : List (List (List α))} {base : List α}
      {fault : Fault} {w₁ w₂ w' : World σ} : scales ≠ [] →
      Starts site.evaluator machine o given site.blocks w first (.ok base) w₁ →
      site.Tours machine o scales w₁ i before w₂ → scales[i]? = some scale →
      site.Column machine o i (o.stepSize scale) w₂ points (some fault) w' →
      Itinerary site machine o given scales w (first ++ before ++ points) (.error fault) w'
  /-- All columns are whole. -/
  | finished {first points : List (List (List α))} {base : List α} {columns : List (List α)}
      {w₁ w' : World σ} : scales ≠ [] →
      Starts site.evaluator machine o given site.blocks w first (.ok base) w₁ →
      site.Tours machine o scales w₁ scales.length points w' → columns.length = scales.length →
      Itinerary site machine o given scales w (first ++ points)
        (site.evaluator.numResiduals.extent.map fun rows => ofColumns rows.toNat columns) w'

/-! ### Keeping to an itinerary -/

/-- Residuals to start from. -/
theorem exists_starts (e : Evaluator σ α) (machine : Machine) (o : DiffOptions α)
    (given : Option (Supplied α)) (blocks : List (List α)) (w : World σ) :
    ∃ points, Starts e machine o given blocks w points
      ((baseResiduals e blocks o given).perform machine w).1
      ((baseResiduals e blocks o given).perform machine w).2 := by
  unfold baseResiduals
  cases hscheme : o.scheme with
  | forward =>
      cases hgiven : given with
      | none =>
          refine ⟨_, .looked hscheme rfl ?_⟩
          simp only []
          unfold residualsOnly
          rw [Action.perform_bind]
          rcases hanswer : (e.evaluate (blocks.map .vector) none).perform machine w with
            ⟨fault | _ | answer, w'⟩
          · exact .raised hanswer
          · exact .noValue hanswer
          · simp only [Action.perform_ofExcept]
            exact .value hanswer
      | some base =>
          simp only [Action.perform_ofExcept]
          exact ⟨_, .given hscheme rfl⟩
  | central => exact ⟨_, .unneeded (by rw [hscheme]; nofun)⟩
  | ridders => exact ⟨_, .unneeded (by rw [hscheme]; nofun)⟩

omit [Scalar α] in
/-- One worker does the tasks one after the other. -/
theorem Workers.perform_run_of_serial {β : Type} {machine : Machine} {w : World σ}
    {setting : Setting} {tasks : List (Action σ β)} {workers : ℤ}
    (hworkers : resolve machine setting (.count tasks.length) = .ok workers)
    (hserial : workers ≤ 1) :
    (run setting tasks).perform machine w = (tasks.mapM id).perform machine w := by
  unfold run
  rw [Action.perform_read_bind, Action.perform_ofExcept_bind hworkers, if_neg (by omega)]

section Columns

variable [MeasuredScalar α] {site : Site σ α} {machine : Machine} {o : DiffOptions α}
  {scales : List α} {w w₁ w' : World σ}

/-- What columns that are run one after the other come to: a setting stops one of them, all of them
are whole, or one is broken off. -/
inductive Site.Runs (site : Site σ α) (machine : Machine) (o : DiffOptions α) (scales : List α)
    (w : World σ) (count : ℕ) : Except Fault (List (List α)) → World σ → Prop
  | stopped {fault : Fault} {w' : World σ} : o.Raises fault →
      Runs site machine o scales w count (.error fault) w'
  | whole {columns : List (List α)} {points : List (List (List α))} {w' : World σ} :
      site.Tours machine o scales w scales.length points w' → columns.length = count →
      Runs site machine o scales w count (.ok columns) w'
  | brokenOff {i : ℕ} {scale : α} {before points : List (List (List α))} {fault : Fault}
      {w₁ w' : World σ} : site.Tours machine o scales w i before w₁ → scales[i]? = some scale →
      site.Column machine o i (o.stepSize scale) w₁ points (some fault) w' →
      Runs site machine o scales w count (.error fault) w'

/-- **Columns that are run one after the other** go on a tour to the last one, unless one of them is
broken off or a setting stops it. Induction on the columns that are left. -/
theorem Site.runs_columns (base : List α) {left i : ℕ} (hleft : i + left = scales.length)
    {before : List (List (List α))} (htour : site.Tours machine o scales w i before w₁) :
    site.Runs machine o scales w left
      (((List.range' i left).mapM (site.columns o base scales)).perform machine w₁).1
      (((List.range' i left).mapM (site.columns o base scales)).perform machine w₁).2 := by
  induction left generalizing i before w₁ with
  | zero =>
      obtain rfl : i = scales.length := hleft
      exact .whole htour rfl
  | succ left ih =>
      have hi : i < scales.length := by omega
      have hscale : scales[i]? = some scales[i] := List.getElem?_eq_getElem hi
      have hthis : site.columns o base scales i = site.column o base i scales[i] := by
        rw [columns, hscale]
      have hcovers := site.covers_column o machine i base scales[i] w₁
      unfold Covers at hcovers
      rw [List.range'_succ, List.mapM_cons, hthis]
      rcases hc : (site.column o base i scales[i]).perform machine w₁ with ⟨fault | column, w₂⟩ <;>
        rw [hc] at hcovers
      · rw [Action.perform_bind_of_error hc]
        rcases hcovers with ⟨fault', hraises, hfault⟩ | ⟨points, hcolumn⟩
        · exact .stopped (Except.error.inj hfault ▸ hraises)
        · exact .brokenOff htour hscale hcolumn
      · rw [Action.perform_bind_of_ok hc]
        rcases hcovers with ⟨fault, -, hfault⟩ | ⟨points, hcolumn⟩
        · cases hfault
        have hrest := ih (by omega) (htour.column hscale hcolumn)
        rcases hr : ((List.range' (i + 1) left).mapM (site.columns o base scales)).perform machine
          w₂ with ⟨fault | columns, w₃⟩ <;> rw [hr] at hrest
        · rw [Action.perform_bind_of_error hr]
          cases hrest with
          | stopped hraises => exact .stopped hraises
          | brokenOff htours hat hbroken => exact .brokenOff htours hat hbroken
        · rw [Action.perform_bind_of_ok hr]
          cases hrest with
          | whole htours hlength => exact .whole htours (congrArg (· + 1) hlength)

/-- One worker goes from column to column. -/
theorem Site.runs_of_serial (site : Site σ α) (w : World σ) (hserial : ∃ workers ≤ 1,
      Workers.resolve machine o.workers (.count scales.length) = .ok workers) (base : List α) :
    site.Runs machine o scales w scales.length
      ((Workers.run o.workers ((List.range scales.length).map
        (site.columns o base scales))).perform machine w).1
      ((Workers.run o.workers ((List.range scales.length).map
        (site.columns o base scales))).perform machine w).2 := by
  obtain ⟨workers, hle, hworkers⟩ := hserial
  rw [Workers.perform_run_of_serial (by simpa using hworkers) hle, List.mapM_map,
    List.range_eq_range']
  exact site.runs_columns base (Nat.zero_add _) .start

variable {e : Evaluator σ α} {parameters : List (Supplied α)} {index : Setting}
  {manifold : Option (Manifold σ α)} {blocks : List (List α)} {k : ℕ} {block : List α}

omit [MeasuredScalar α] in
/-- There is nothing to do without a tangent coordinate. -/
theorem estimate_of_no_coordinate (hb : readBlocks parameters e.blockSizes = .ok blocks)
    (hk : blockAt blocks index = .ok (k, block))
    (hs : tangentScales index.shown block manifold = .ok (some [])) (o : DiffOptions α)
    (base : Option (Supplied α)) :
    estimate e parameters index manifold o base =
      Action.ofExcept (Tensor.zeros [e.numResiduals, .count 0]) := by
  unfold estimate
  rw [Action.ofExcept_bind_eq hb, Action.ofExcept_bind_eq hk]
  simp only []
  rw [Action.ofExcept_bind_eq hs]

/-- **Without a pool there is an itinerary**, unless a setting stops it. -/
theorem exists_itinerary (hb : readBlocks parameters e.blockSizes = .ok blocks)
    (hk : blockAt blocks index = .ok (k, block))
    (hs : tangentScales index.shown block manifold = .ok (some scales))
    (hserial : scales ≠ [] → ∃ workers ≤ 1,
      Workers.resolve machine o.workers (.count scales.length) = .ok workers)
    (base : Option (Supplied α)) (w : World σ) :
    (∃ fault, o.Raises fault ∧
      ((estimate e parameters index manifold o base).perform machine w).1 = .error fault) ∨
    ∃ points, Itinerary ⟨e, blocks, k, index.shown, block, manifold, scales.length⟩ machine o base
      scales w points ((estimate e parameters index manifold o base).perform machine w).1
      ((estimate e parameters index manifold o base).perform machine w).2 := by
  by_cases hne : scales = []
  · subst hne
    rw [estimate_of_no_coordinate hb hk hs, Action.perform_ofExcept]
    exact .inr ⟨[], .nowhere rfl⟩
  rw [estimate_eq hb hk hs hne]
  obtain ⟨first, hstarts⟩ := exists_starts e machine o base blocks w
  rcases hbase : (baseResiduals e blocks o base).perform machine w with ⟨fault | start, w₁⟩ <;>
    rw [hbase] at hstarts
  · rw [Action.perform_bind_of_error hbase]
    exact .inr ⟨first, .unstarted hne hstarts⟩
  rw [Action.perform_bind_of_ok hbase]
  have hruns := Site.runs_of_serial
    ⟨e, blocks, k, index.shown, block, manifold, scales.length⟩ w₁ (hserial hne) start
  rcases hrun : (Workers.run o.workers ((List.range scales.length).map (Site.columns
    ⟨e, blocks, k, index.shown, block, manifold, scales.length⟩ o start scales))).perform machine w₁
    with ⟨fault | columns, w'⟩ <;> rw [hrun] at hruns
  · rw [Action.perform_bind_of_error hrun]
    cases hruns with
    | stopped hraises => exact .inl ⟨fault, hraises, rfl⟩
    | brokenOff htours hscale hcolumn =>
        exact .inr ⟨_, .brokenOff hne hstarts htours hscale hcolumn⟩
  · rw [Action.perform_bind_of_ok hrun, Action.perform_ofExcept]
    cases hruns with
    | whole htours hlength => exact .inr ⟨_, .finished hne hstarts htours hlength⟩

end Columns

/-! ### What can be observed -/

omit [Scalar α] in
/-- The site where all calls of the evaluator are observed. -/
def Site.observed (site : Site σ α) : Site (σ × List (Event α)) α where
  evaluator := site.evaluator.traced
  blocks := site.blocks
  index := site.index
  shown := site.shown
  block := site.block
  manifold := site.manifold.map Manifold.beside
  tangentSize := site.tangentSize

/-- What looks at points leave behind. -/
def marks (points : List (List (List α))) : List (Event α) :=
  points.map fun point => .called (point.map .vector) none

omit [Scalar α] in
theorem marks_append (points more : List (List (List α))) :
    marks (points ++ more) = marks points ++ marks more := List.map_append

/-- The point of a call. -/
def Event.point : Event α → List (List α)
  | called parameters _ => parameters.map fun block => block.entries.toOption.getD []
  | reported _ => []

/-- The points can be read off from what the looks leave behind. -/
theorem map_point_marks (points : List (List (List α))) :
    (marks points).map Event.point = points := by
  unfold marks
  rw [List.map_map]
  refine List.map_id'' (fun point => ?_) points
  show (point.map .vector).map (fun block => (Supplied.entries block).toOption.getD []) = point
  rw [List.map_map]
  exact List.map_id'' (fun _ => rfl) point

/-- A manifold beside the trace makes its steps there. -/
theorem Manifold.plus_beside {ρ : Type} (m : Manifold σ α) (x delta : Supplied α) :
    (m.beside (ρ := ρ)).plus x delta = (m.plus x delta).beside := by
  refine Action.ext_perform fun machine w => ?_
  rw [Action.perform_beside]
  cases m with
  | custom manifold => exact Action.perform_beside machine _ w
  | _ =>
      simp only [beside, plus, Action.perform_ofExcept]

/-- What is known about the world after looks at some points: nothing happens without a look, looks
add up, a call of the evaluator is one look, and a step of a manifold is none. -/
structure Site.Records (site : Site σ α) (machine : Machine)
    (after : List (List (List α)) → World σ → World σ → Prop) : Prop where
  nothing : ∀ w, after [] w w
  append : ∀ {points more : List (List (List α))} {w w₁ w₂ : World σ}, after points w w₁ →
    after more w₁ w₂ → after (points ++ more) w w₂
  called : ∀ point w,
    after [point] w ((site.evaluator.evaluate (point.map .vector) none).perform machine w).2
  moved : ∀ m ∈ site.manifold, ∀ x delta w, after [] w ((m.plus x delta).perform machine w).2

namespace Site.Records

variable {site : Site σ α} {machine : Machine}
  {after : List (List (List α)) → World σ → World σ → Prop} (hr : site.Records machine after)
  {o : DiffOptions α} {i : ℕ} {start : α} {w w' : World σ} {points : List (List (List α))}

include hr

/-- A call is one look. -/
theorem shows {missing : Fault} {point : List (List α)} {seen : Except Fault (List α)}
    (h : site.evaluator.Shows machine missing point w seen w') : after [point] w w' := by
  have hcalled := hr.called point w
  cases h with
  | value hp => rwa [hp] at hcalled
  | noValue hp => rwa [hp] at hcalled
  | raised hp => rwa [hp] at hcalled

/-- A step of the block is no look. -/
theorem lands {step : α} {found : Except Fault (List α)}
    (h : site.Lands machine i step w found w') : after [] w w' := by
  have hquiet : ∀ m ∈ site.manifold, ∀ {x delta reply},
      (m.plus x delta).perform machine w = (reply, w') → after [] w w' := by
    intro m hm x delta reply hp
    have hmoved := hr.moved m hm x delta w
    rwa [hp] at hmoved
  cases h with
  | added => exact hr.nothing w
  | moved hm hp => exact hquiet _ hm hp
  | nowhere hm hp => exact hquiet _ hm hp
  | raised hm hp => exact hquiet _ hm hp
  | malformed hm hp => exact hquiet _ hm hp
  | unsized hm hp => exact hquiet _ hm hp

theorem looks {step : α} {seen : Except Fault (List α)}
    (h : site.Looks machine i step w points seen w') : after points w w' := by
  cases h with
  | unmoved hlands => exact hr.lands hlands
  | looked hlands hshows => exact hr.append (hr.lands hlands) (hr.shows hshows)

theorem sees {seen : List (List α)} (h : site.Sees machine o i start w seen points w') :
    after points w w' := by
  induction h with
  | nothing => exact hr.nothing w
  | look _ _ hlooks ih => exact hr.append ih (hr.looks hlooks)

theorem column {fault : Option Fault}
    (h : site.Column machine o i start w points fault w') : after points w w' := by
  cases h with
  | whole hsees => exact hr.sees hsees
  | brokenOff hsees _ hlooks => exact hr.append (hr.sees hsees) (hr.looks hlooks)

variable {scales : List α} {given : Option (Supplied α)}

theorem tours (h : site.Tours machine o scales w i points w') : after points w w' := by
  induction h with
  | start => exact hr.nothing w
  | column _ _ hcolumn ih => exact hr.append ih (hr.column hcolumn)

theorem starts {blocks : List (List α)} {base : Except Fault (List α)}
    (h : Starts site.evaluator machine o given blocks w points base w') : after points w w' := by
  cases h with
  | unneeded => exact hr.nothing w
  | given => exact hr.nothing w
  | looked _ _ hshows => exact hr.shows hshows

/-- **What looks leave behind, an itinerary leaves behind.** -/
theorem itinerary {answer : Except Fault (Tensor α)}
    (h : Itinerary site machine o given scales w points answer w') : after points w w' := by
  cases h with
  | nowhere => exact hr.nothing w
  | unstarted _ hstarts => exact hr.starts hstarts
  | brokenOff _ hstarts htours _ hcolumn =>
      exact hr.append (hr.append (hr.starts hstarts) (hr.tours htours)) (hr.column hcolumn)
  | finished _ hstarts htours => exact hr.append (hr.starts hstarts) (hr.tours htours)

end Site.Records

/-- Each look leaves its point in the trace. -/
theorem Site.records_observed (site : Site σ α) (machine : Machine) :
    site.observed.Records machine fun points w w' =>
      w'.shared.2 = w.shared.2 ++ marks points where
  nothing _ := (List.append_nil _).symm
  append h h' := by rw [h', h, marks_append, List.append_assoc]
  called point w := site.evaluator.trace_evaluate (point.map .vector) none machine w
  moved m hm x delta w := by
    obtain ⟨original, -, rfl⟩ := Option.map_eq_some_iff.1 hm
    rw [Manifold.plus_beside, Action.perform_beside]
    exact (List.append_nil _).symm

/-- **An itinerary leaves its points behind**, in their order, and nothing else. -/
theorem Itinerary.trace_eq {site : Site σ α} {machine : Machine} {o : DiffOptions α}
    {w w' : World (σ × List (Event α))} {points : List (List (List α))} {scales : List α}
    {given : Option (Supplied α)} {answer : Except Fault (Tensor α)}
    (h : Itinerary site.observed machine o given scales w points answer w') :
    w'.shared.2 = w.shared.2 ++ marks points :=
  (site.records_observed machine).itinerary h

/-! ### Itineraries that break off -/

/-- What is promised beside a trace. -/
theorem Action.Promises.beside {ρ β : Type} {a : Action σ β} {answer : β → Prop}
    {fault : Fault → Prop} (h : a.Promises answer fault) :
    (a.beside (ρ := ρ)).Promises answer fault where
  answers hp := by
    rw [perform_beside] at hp
    exact h.answers (eq_mk_of_fst (Prod.mk.inj hp).1)
  faults hp := by
    rw [perform_beside] at hp
    exact h.faults (eq_mk_of_fst (Prod.mk.inj hp).1)

omit [Scalar α] in
theorem Action.Promises.tracing {β : Type} {a : Action σ β} {answer : β → Prop}
    {fault : Fault → Prop} (h : a.Promises answer fault) (event : Event α) :
    (JacobianAudit.tracing event a).Promises answer fault where
  answers hp := by
    rw [perform_tracing] at hp
    exact h.answers (eq_mk_of_fst (Prod.mk.inj hp).1)
  faults hp := by
    rw [perform_tracing] at hp
    exact h.faults (eq_mk_of_fst (Prod.mk.inj hp).1)

/-- Observed callers answer with arrays of the same sizes. -/
theorem Site.Sized.observed {site : Site σ α} {rows : ℕ} (h : site.Sized rows) :
    site.observed.Sized rows where
  numResiduals_eq := h.numResiduals_eq
  residuals point := (h.residuals point).tracing _
  plus m hm delta := by
    obtain ⟨original, horiginal, rfl⟩ := Option.map_eq_some_iff.1 hm
    rw [Manifold.plus_beside]
    exact (h.plus original horiginal delta).beside

/-- **Where everyone answers as declared, an itinerary breaks off at a look**: at the point itself,
or at a step along a tangent coordinate, which the fault names. -/
theorem Itinerary.misses {site : Site σ α} {machine : Machine} {o : DiffOptions α}
    {given : Option (Supplied α)} {scales : List α} {w w' : World σ}
    {points : List (List (List α))} {fault : Fault} {rows : ℕ} (hsite : site.Sized rows)
    (hrows : Shape.Held [rows]) (hgiven : ∀ base ∈ given, base.HasEntries rows)
    (h : Itinerary site machine o given scales w points (.error fault) w') :
    points = [site.blocks] ∧ fault = .evaluation .residuals ∨
    ∃ i scale j before last, scales[i]? = some scale ∧ points = before ++ last ∧
      site.Misses i (lookStep o (o.stepSize scale) j) last fault := by
  generalize hanswer : (Except.error fault : Except Fault (Tensor α)) = answer at h
  cases h with
  | nowhere =>
      have hrank : [rows, 0].length ≤ Shape.maxRank := show 2 ≤ 64 from by decide
      have hzeros := zeros_eq (α := α) hrows.without_columns hrank
      rw [hsite.numResiduals_eq] at hanswer
      cases hanswer.trans hzeros
  | unstarted _ hstarts =>
      obtain rfl := Except.error.inj hanswer
      generalize hstart : (Except.error fault : Except Fault (List α)) = start at hstarts
      cases hstarts with
      | unneeded => cases hstart
      | given _ hbase =>
          obtain ⟨xs, hread, -⟩ := (hgiven _ hbase).exists_readResiduals
          rw [hsite.numResiduals_eq, hread] at hstart
          cases hstart
      | looked _ _ hshows =>
          subst hstart
          exact .inl ⟨rfl, Evaluator.Shows.eq_of_sized hsite hshows⟩
  | brokenOff _ _ _ hscale hcolumn =>
      obtain rfl := Except.error.inj hanswer
      cases hcolumn with
      | brokenOff _ _ hlooks =>
          exact .inr ⟨_, _, _, _, _, hscale, (List.append_assoc _ _ _).symm, hlooks.misses hsite⟩
  | finished =>
      rw [hsite.numResiduals_eq, hrows.extent_eq List.mem_cons_self] at hanswer
      cases hanswer

/-! ### Where a differentiator looks -/

omit [Scalar α] in
/-- The block that an index names is one of the blocks. -/
theorem getElem?_of_blockAt {blocks : List (List α)} {index : Setting} {k : ℕ} {block : List α}
    (h : blockAt blocks index = .ok (k, block)) : blocks[k]? = some block := by
  obtain ⟨within, -, h⟩ := Except.bind_eq_ok_iff.1 h
  split at h
  · obtain ⟨place, -, h⟩ := Except.bind_eq_ok_iff.1 h
    simp only [] at h
    split at h
    · rename_i hfound
      obtain ⟨rfl, rfl⟩ := Prod.mk.inj (Except.ok.inj h)
      exact hfound
    · cases h
  · cases h

/-- With a manifold, all tangent coordinates have one scale: the largest magnitude of the block. -/
theorem eq_largest_of_tangentScales {shown : String} {block scales : List α} {m : Manifold σ α}
    (h : tangentScales shown block (some m) = .ok (some scales)) :
    ∀ scale ∈ scales, scale = Scalar.largest Scalar.zero (block.map Scalar.abs) := by
  unfold tangentScales at h
  simp only [] at h
  split at h
  · obtain ⟨shape, -, h⟩ := Except.bind_eq_ok_iff.1 h
    split at h
    · cases h
    · obtain rfl := Option.some.inj (Except.ok.inj h)
      exact fun scale hscale => List.eq_of_mem_replicate hscale
  · cases h

/-- **A differentiator keeps to its itinerary.** Let there be no pool, and let no setting stop the
differentiation. Then the evaluator is called, without a request for Jacobians, at the points of an
itinerary, in their order, and nowhere else. All of these points agree with the parameters but for
the block that is differentiated. If everyone answers with arrays of the declared sizes, the one
thing to break off an itinerary is a look that fails. -/
theorem estimate_itinerary [MeasuredScalar α] (e : Evaluator σ α)
    (manifold : Option (Manifold σ α)) (o : DiffOptions α) (machine : Machine)
    (w : World (σ × List (Event α))) (base : Option (Supplied α)) {parameters : List (Supplied α)}
    {index : Setting} {blocks : List (List α)} {k : ℕ} {block scales : List α}
    (hb : readBlocks parameters e.blockSizes = .ok blocks)
    (hk : blockAt blocks index = .ok (k, block))
    (hs : tangentScales index.shown block manifold = .ok (some scales))
    (hserial : scales ≠ [] → ∃ workers ≤ 1,
      Workers.resolve machine o.workers (.count scales.length) = .ok workers)
    (hsettings : ∀ fault, o.Raises fault →
      ((estimate e.traced parameters index (manifold.map Manifold.beside) o base).perform
        machine w).1 ≠ .error fault) :
    let site : Site σ α := ⟨e, blocks, k, index.shown, block, manifold, scales.length⟩
    let done := (estimate e.traced parameters index (manifold.map Manifold.beside) o base).perform
      machine w
    blocks[k]? = some block ∧
    (∀ n, HasCoordinates manifold block.length n → scales.length = n) ∧
    (manifold = none → scales = block.map Scalar.abs) ∧
    (manifold ≠ none → ∀ scale ∈ scales,
      scale = Scalar.largest Scalar.zero (block.map Scalar.abs)) ∧
    ∃ points, Itinerary site.observed machine o base scales w points done.1 done.2 ∧
      done.2.shared.2 = w.shared.2 ++ marks points ∧
      ∀ rows, site.Sized rows → Shape.Held [rows] → (∀ given ∈ base, given.HasEntries rows) →
        ∀ fault, done.1 = .error fault →
          points = [blocks] ∧ fault = .evaluation .residuals ∨
          ∃ i scale j before last, scales[i]? = some scale ∧ points = before ++ last ∧
            site.observed.Misses i (lookStep o (o.stepSize scale) j) last fault := by
  intro site done
  have hone : manifold ≠ none → ∀ scale ∈ scales,
      scale = Scalar.largest Scalar.zero (block.map Scalar.abs) := by
    intro hmanifold
    obtain ⟨m, rfl⟩ := Option.ne_none_iff_exists'.1 hmanifold
    exact eq_largest_of_tangentScales hs
  have heach : manifold = none → scales = block.map Scalar.abs := by
    rintro rfl
    exact (Option.some.inj (Except.ok.inj hs)).symm
  refine ⟨getElem?_of_blockAt hk, fun n hn => length_of_tangentScales hn hs, heach, hone, ?_⟩
  have hobserved := (tangentScales_beside (ρ := List (Event α)) index.shown block manifold).trans hs
  rcases exists_itinerary (e := e.traced) hb hk hobserved hserial base w with
    ⟨fault, hraises, hfault⟩ | ⟨points, hpoints⟩
  · exact absurd hfault (hsettings fault hraises)
  have hpoints : Itinerary site.observed machine o base scales w points done.1 done.2 := hpoints
  refine ⟨points, hpoints, hpoints.trace_eq, fun rows hsized hrows hgiven fault hfault => ?_⟩
  rw [hfault] at hpoints
  exact hpoints.misses hsized.observed hrows hgiven

theorem estimate_itinerary_slanted :
    let manifold : Option (Manifold Unit Float) := some (.subset secondConstant)
    let site : Site Unit Float :=
      ⟨slanted.toEvaluator, slantedBlocks, 0, (Setting.count 0).shown, [1.0, 5.0], manifold, 1⟩
    let done := (estimate slanted.toEvaluator.traced slantedPoint (.count 0)
      (manifold.map Manifold.beside) DiffOptions.standard none).perform plainMachine
        ⟨((), []), [], []⟩
    readBlocks slantedPoint slanted.toEvaluator.blockSizes = .ok slantedBlocks ∧
    tangentScales (Setting.count 0).shown [1.0, 5.0] manifold = .ok (some [5.0]) ∧
    ∃ points, Itinerary site.observed plainMachine DiffOptions.standard none [5.0]
      ⟨((), []), [], []⟩ points done.1 done.2 ∧ done.2.shared.2 = marks points ∧
      points = [[[1.05, 5.0], [3.0]], [[0.95, 5.0], [3.0]], [[1.025, 5.0], [3.0]],
        [[0.975, 5.0], [3.0]]] := by
  intro manifold site done
  have hblocks : readBlocks slantedPoint slanted.toEvaluator.blockSizes = .ok slantedBlocks := rfl
  have hblock : blockAt slantedBlocks (.count 0) = .ok (0, [1.0, 5.0]) := rfl
  have hscales : tangentScales (Setting.count 0).shown [1.0, 5.0] manifold = .ok (some [5.0]) := by
    decide +kernel
  have hdone : (done.1.map fun _ => ()) = .ok () := by decide +kernel
  have hsettings : ∀ fault, DiffOptions.standard.Raises fault → done.1 ≠ .error fault := by
    intro fault _ hfault
    rw [hfault] at hdone
    cases hdone
  obtain ⟨-, -, -, -, points, hpoints, htrace, -⟩ := estimate_itinerary slanted.toEvaluator manifold
    DiffOptions.standard plainMachine ⟨((), []), [], []⟩ none hblocks hblock hscales
    (fun _ => ⟨1, le_rfl, by decide +kernel⟩) hsettings
  have htrace : done.2.shared.2 = marks points := htrace.trans (List.nil_append _)
  refine ⟨hblocks, hscales, points, hpoints, htrace, ?_⟩
  rw [← map_point_marks points, ← htrace]
  decide +kernel

/-- One residual that does not depend on the two entries of its block. -/
def plateau : Evaluator Unit Float where
  blockSizes := [.count 2]
  numResiduals := .count 1
  evaluate _ _ := pure (some ⟨.vector [1.0], none⟩)

/-- Accepted settings with two levels, of which the second one needs a power that is too large. -/
def steepTwice : DiffOptions Float :=
  { steep with
    riddersLevels := 2
    two_le_riddersLevels := le_rfl }

/-- **A power that is too large ends an itinerary.** Here all looks for the first column succeed,
and yet there is no Jacobian, and the second column is left out. -/
theorem itinerary_abandoned :
    ¬∀ (e : Evaluator Unit Float) (manifold : Option (Manifold Unit Float)) (o : DiffOptions Float)
      (machine : Machine) (w : World (Unit × List (Event Float))) (base : Option (Supplied Float))
      (parameters : List (Supplied Float)) (index : Setting) (blocks : List (List Float)) (k : ℕ)
      (block scales : List Float),
      readBlocks parameters e.blockSizes = .ok blocks → blockAt blocks index = .ok (k, block) →
      tangentScales index.shown block manifold = .ok (some scales) →
      (scales ≠ [] → ∃ workers ≤ 1,
        Workers.resolve machine o.workers (.count scales.length) = .ok workers) →
      let done := (estimate e.traced parameters index (manifold.map Manifold.beside) o
        base).perform machine w
      ∃ points, Itinerary
        (Site.observed ⟨e, blocks, k, index.shown, block, manifold, scales.length⟩) machine o base
        scales w points done.1 done.2 := by
  intro h
  have hscales : tangentScales (Setting.count 0).shown [2.0, 3.0]
      (none : Option (Manifold Unit Float)) = .ok (some [2.0, 3.0]) := by decide +kernel
  obtain ⟨points, hpoints⟩ := h plateau none steepTwice plainMachine ⟨((), []), [], []⟩ none
    [.vector [2.0, 3.0]] (.count 0) [[2.0, 3.0]] 0 [2.0, 3.0] [2.0, 3.0] rfl rfl hscales
    fun _ => ⟨1, le_rfl, by decide +kernel⟩
  have hdone : ((estimate plateau.traced [.vector [2.0, 3.0]] (.count 0)
      ((none : Option (Manifold Unit Float)).map Manifold.beside) steepTwice none).perform
        plainMachine ⟨((), []), [], []⟩).1.map (fun _ => ()) = .error .overflow := by decide +kernel
  have hsized : Site.Sized ⟨plateau, [[2.0, 3.0]], 0, (Setting.count 0).shown, [2.0, 3.0], none,
      ([2.0, 3.0] : List Float).length⟩ 1 :=
    ⟨rfl, fun _ => .pure fun answer ha => Option.some.inj ha ▸ Supplied.hasEntries_vector [1.0],
      nofun⟩
  have hgiven : ∀ base ∈ (none : Option (Supplied Float)), base.HasEntries 1 := nofun
  generalize hfault : (Action.perform _ _ _).1 = answer at hpoints hdone
  cases answer with
  | ok jacobian => cases hdone
  | error fault =>
      obtain rfl : fault = .overflow := Except.error.inj hdone
      -- every itinerary that breaks off does so with another fault
      rcases Itinerary.misses hsized.observed (by decide) hgiven hpoints with
        ⟨-, hother⟩ | ⟨i, scale, j, before, last, -, -, hmisses⟩
      · cases hother
      · cases hmisses

end JacobianAudit
