/-
**What can stop an estimate.**

Where all callers answer as they declared, a numeric Jacobian can still fail to exist: at a step the
manifold or the evaluator may have no value. The settings can be in the way as well. There
may be no end to the number of workers, and the powers of the shrink factor that the extrapolation
needs may be no numbers. There is no other obstacle.

Main definitions:

* `JacobianAudit.DiffOptions.Raises` — the faults that settings can cause;
* `JacobianAudit.Site.Answered` — a derivative is taken where everyone answers;
* `JacobianAudit.Ridders.Search.Sized` — a search that has so many steps behind it.

Main results:

* `JacobianAudit.Tableau.of_extend_error` — the one thing a row may fail at is a power;
* `JacobianAudit.Ridders.search_promises` — **so may a search**, and the powers are those of its
  levels;
* `JacobianAudit.estimate_promises` — **what can stop an estimate**.
-/

import JacobianAudit.Proofs.Answers
import JacobianAudit.Proofs.Shapes

set_option autoImplicit false

namespace JacobianAudit

variable {σ α : Type}

/-! ### Tableaus -/

namespace Tableau

section

variable {ε : Type} {eliminate : ℕ → ε → ε → Except Fault ε} {q : ε → Prop}
  {k : ℕ} {entry : ε} {row : List ε}

/-- A row is longer by one than the row before, and keeps what each elimination keeps. -/
theorem of_eliminateFrom {row' : List ε}
    (hstep : ∀ j finer coarser next, q finer → q coarser →
      eliminate j finer coarser = .ok next → q next) (hentry : q entry) (hrow : ∀ t ∈ row, q t)
    (h : eliminateFrom eliminate k entry row = .ok row') :
    row'.length = row.length + 1 ∧ ∀ t ∈ row', q t := by
  induction row generalizing k entry row' with
  | nil =>
      obtain rfl := Except.ok.inj h
      exact ⟨rfl, List.forall_mem_singleton.2 hentry⟩
  | cons coarser rest ih =>
      obtain ⟨next, hnext, h⟩ := Except.bind_eq_ok_iff.1 h
      obtain ⟨later, hlater, h⟩ := Except.bind_eq_ok_iff.1 h
      obtain rfl := Except.ok.inj h
      have hq : q next := hstep k entry coarser next hentry (hrow coarser List.mem_cons_self) hnext
      obtain ⟨hlength, hall⟩ := ih hq (fun t ht => hrow t (List.mem_cons_of_mem _ ht)) hlater
      exact ⟨congrArg (· + 1) hlength, List.forall_mem_cons.2 ⟨hentry, hall⟩⟩

/-- A row fails at one of its eliminations. -/
theorem of_eliminateFrom_error {fault : Fault}
    (hstep : ∀ j finer coarser next, q finer → q coarser →
      eliminate j finer coarser = .ok next → q next) (hentry : q entry) (hrow : ∀ t ∈ row, q t)
    (h : eliminateFrom eliminate k entry row = .error fault) :
    ∃ j finer coarser, k ≤ j ∧ j < k + row.length ∧ q finer ∧ q coarser ∧
      eliminate j finer coarser = .error fault := by
  induction row generalizing k entry with
  | nil => cases h
  | cons coarser rest ih =>
      have hcoarser : q coarser := hrow coarser List.mem_cons_self
      rcases Except.bind_eq_error_iff.1 h with h | ⟨next, hnext, h⟩
      · exact ⟨k, entry, coarser, le_rfl, by simp, hentry, hcoarser, h⟩
      · rcases Except.bind_eq_error_iff.1 h with h | ⟨later, -, h⟩
        · have hq : q next := hstep k entry coarser next hentry hcoarser hnext
          obtain ⟨j, finer, coarser', hk, hj, hfound⟩ :=
            ih hq (fun t ht => hrow t (List.mem_cons_of_mem _ ht)) h
          exact ⟨j, finer, coarser', by omega, by rw [List.length_cons]; omega, hfound⟩
        · cases h

end

variable [Scalar α] {shape : Shape} {row : List (Tensor α)} {value : Supplied α} {t : Tensor α}
  {order : ℤ} {ratio : α}

/-- Estimates of one shape leave an estimate of that shape. -/
theorem exists_eliminate {finer coarser : Tensor α} (factor : α) (hf : finer.shape = shape)
    (hc : coarser.shape = shape) :
    ∃ next, eliminate factor finer coarser = .ok next ∧ next.shape = shape := by
  have hshape : (finer.map (factor * ·)).shape = coarser.shape := hf.trans hc.symm
  refine ⟨_, Except.bind_eq_ok_iff.2 ⟨_, Tensor.zipWith_of_shape_eq _ hshape, rfl⟩, ?_⟩
  exact hf

theorem shape_of_eliminate {j : ℕ} {finer coarser next : Tensor α} (hf : finer.shape = shape)
    (hc : coarser.shape = shape)
    (h : (do eliminate (← Scalar.power ratio (order * j)) finer coarser) = .ok next) :
    next.shape = shape := by
  obtain ⟨factor, -, h⟩ := Except.bind_eq_ok_iff.1 h
  obtain ⟨next', hnext, hshape⟩ := exists_eliminate factor hf hc
  obtain rfl := Except.ok.inj (h.symm.trans hnext)
  exact hshape

/-- The next row over estimates of one shape. -/
theorem of_extend {row' : List (Tensor α)} (hv : value.read = .ok t) (ht : t.shape = shape)
    (hrow : ∀ t ∈ row, t.shape = shape) (h : extend row value order ratio = .ok row') :
    row'.length = row.length + 1 ∧ ∀ t ∈ row', t.shape = shape := by
  obtain ⟨first, hfirst, h⟩ := Except.bind_eq_ok_iff.1 h
  obtain rfl := Except.ok.inj (hv.symm.trans hfirst)
  exact of_eliminateFrom (q := fun t => t.shape = shape)
    (fun _ _ _ _ hf hc => shape_of_eliminate hf hc) ht hrow h

/-- The one thing that the next row may fail at is a power of the ratio. -/
theorem of_extend_error {fault : Fault} (hv : value.read = .ok t) (ht : t.shape = shape)
    (hrow : ∀ t ∈ row, t.shape = shape) (h : extend row value order ratio = .error fault) :
    ∃ j : ℕ, 1 ≤ j ∧ j ≤ row.length ∧ Scalar.power ratio (order * j) = .error fault := by
  rcases Except.bind_eq_error_iff.1 h with h | ⟨first, hfirst, h⟩
  · rw [hv] at h
    cases h
  · obtain rfl := Except.ok.inj (hv.symm.trans hfirst)
    obtain ⟨j, finer, coarser, hk, hj, hf, hc, hfault⟩ :=
      of_eliminateFrom_error (q := fun t => t.shape = shape)
        (fun _ _ _ _ hf hc => shape_of_eliminate hf hc) ht hrow h
    refine ⟨j, hk, by omega, ?_⟩
    rcases Except.bind_eq_error_iff.1 hfault with hpower | ⟨factor, -, hfault⟩
    · exact hpower
    · obtain ⟨next, hnext, -⟩ := exists_eliminate factor hf hc
      rw [hnext] at hfault
      cases hfault

theorem shape_diagonal (hne : row ≠ []) (hrow : ∀ t ∈ row, t.shape = shape) :
    (diagonal row).shape = shape := by
  rw [diagonal, List.getLastD_eq_getLast?, List.getLast?_eq_some_getLast hne]
  exact hrow _ (List.getLast_mem hne)

end Tableau

variable [Scalar α]

/-! ### Settings -/

/-- The faults that settings can cause: the number of workers cannot be read, or a power of the
shrink factor is none of the numbers. The powers are those that a search over all its levels
needs. -/
def DiffOptions.Raises (o : DiffOptions α) (fault : Fault) : Prop :=
  Workers.requested o.workers = .error fault ∨
    o.scheme = .ridders ∧ ∃ j : ℕ, 1 ≤ j ∧ j < o.riddersLevels ∧
      Scalar.power o.riddersShrink (2 * j) = .error fault

/-- The evaluator or a manifold had no value. -/
def Fault.IsEvaluation (fault : Fault) : Prop := ∃ cause, fault = .evaluation cause

/-- What can be in the way of an estimate: a value that is missing, or the settings. -/
def DiffOptions.Stops (o : DiffOptions α) (fault : Fault) : Prop :=
  fault.IsEvaluation ∨ o.Raises fault

/-! ### Searches -/

namespace Ridders

variable {shape : Shape} {o : DiffOptions α} {central : α → Action σ (Supplied α)}

/-- A search in which all estimates have one shape, with a row for each step so far. -/
structure Search.Sized (s : Search α) (shape : Shape) (steps : ℕ) : Prop where
  length_eq : s.row.length = steps
  row : ∀ t ∈ s.row, t.shape = shape
  newest : ∀ t ∈ s.newest, t.shape = shape

/-- Changes between estimates of one shape can be measured. -/
theorem exists_change {newer older : Tensor α} (hn : newer.shape = shape)
    (ho : older.shape = shape) : ∃ c, change newer older = .ok c :=
  ⟨_, Except.bind_eq_ok_iff.2 ⟨_, Tensor.zipWith_of_shape_eq _ (hn.trans ho.symm), rfl⟩⟩

/-- **What can stop a search**: a central difference that cannot be taken, or a power of the shrink
factor up to the number of levels. -/
theorem search_promises (hscheme : o.scheme = .ridders)
    (hcentral : ∀ step, (central step).Promises
      (fun value => ∃ t, value.read = .ok t ∧ t.shape = shape) o.Stops)
    {levels steps : ℕ} {s : Search α} (hs : s.Sized shape steps)
    (hlevels : steps + levels ≤ o.riddersLevels) :
    (search central o levels s).Promises (fun _ => True) o.Stops := by
  induction levels generalizing s steps with
  | zero => exact .pure trivial
  | succ levels ih =>
      refine (hcentral s.step).bind fun value hvalue => ?_
      obtain ⟨t, hv, ht⟩ := hvalue
      have hextend : (Action.ofExcept (Tableau.extend s.row value 2 o.riddersShrink) :
          Action σ (List (Tensor α))).Promises
            (fun row => row.length = steps + 1 ∧ ∀ t ∈ row, t.shape = shape) o.Stops := by
        refine .ofExcept (fun row hrow => ?_) fun fault hfault => ?_
        · rw [← hs.length_eq]
          exact Tableau.of_extend hv ht hs.row hrow
        · obtain ⟨j, hj, hle, hpower⟩ := Tableau.of_extend_error hv ht hs.row hfault
          have hlength := hs.length_eq
          exact .inr (.inr ⟨hscheme, j, hj, by omega, hpower⟩)
      refine hextend.bind fun row hrow => ?_
      obtain ⟨hlength, hshapes⟩ := hrow
      have hne : row ≠ [] := List.ne_nil_of_length_eq_add_one hlength
      have hdiagonal : (Tableau.diagonal row).shape = shape := Tableau.shape_diagonal hne hshapes
      -- whatever is made of the change, the search goes on from such a state
      have hnext : ∀ best, Search.Sized
          ⟨row, s.step / o.riddersShrink, some (Tableau.diagonal row), best⟩ shape (steps + 1) := by
        intro best
        refine ⟨hlength, hshapes, fun u hu => ?_⟩
        rw [← Option.some.inj hu]
        exact hdiagonal
      have hgoOn : ∀ best, (search central o levels
          ⟨row, s.step / o.riddersShrink, some (Tableau.diagonal row), best⟩).Promises
            (fun _ => True) o.Stops := fun best => ih (hnext best) (by omega)
      cases hnewest : s.newest with
      | none => exact hgoOn s.best
      | some older =>
          obtain ⟨c, hc⟩ := exists_change hdiagonal (hs.newest older hnewest)
          refine .ofExcept_bind hc ?_
          cases judge c (s.best.map (·.2)) with
          | steadier =>
              simp only []
              split
              · exact .pure trivial
              · exact hgoOn _
          | goOn => exact hgoOn s.best
          | stop => exact .pure trivial

end Ridders

/-! ### Differences -/

variable {rows : ℕ} {sizes : List ℕ}

namespace Site

/-- A derivative is taken where everyone answers as declared: the evaluator at blocks of these
sizes, and the manifold for each of the tangent coordinates. -/
structure Answered (site : Site σ α) (rows : ℕ) (sizes : List ℕ) : Prop where
  evaluator : site.evaluator.Responds rows sizes
  lengths_eq : site.blocks.map List.length = sizes
  block_eq : site.blocks[site.index]? = some site.block
  coordinates : HasCoordinates site.manifold site.block.length site.tangentSize
  total : ∀ m ∈ site.manifold, m.Total site.block.length site.tangentSize

variable {site : Site σ α}

/-- A step does not change the size of the block. -/
theorem Answered.moved_promises (h : site.Answered rows sizes) (i : ℕ) (step : α) :
    (site.moved i step).Promises (fun block => block.length = site.block.length)
      fun _ => False := by
  have hdirection : (site.direction i step).length = site.tangentSize := by simp [direction]
  unfold moved
  cases hm : site.manifold with
  | none =>
      have hcoordinates := h.coordinates
      rw [hm] at hcoordinates
      have hsize : site.tangentSize = site.block.length := hcoordinates
      refine .pure ?_
      rw [List.length_zipWith, hdirection, hsize, Nat.min_self]
  | some m =>
      refine ((h.total m hm).plus _ _ rfl hdirection).bind ?_
      rintro reply ⟨t, rfl, ht⟩
      refine .ofExcept_bind (x := t.data) rfl ?_
      rw [if_pos ht]
      exact .pure ht

/-- After a step there may be no residuals, but nothing else is amiss. -/
theorem Answered.residuals_promises (h : site.Answered rows sizes) (i : ℕ) (step : α) :
    (site.residuals i step).Promises (fun xs => xs.length = rows) Fault.IsEvaluation := by
  refine ((h.moved_promises i step).mono (fun _ hx => hx) fun _ hf => hf.elim).bind
    fun block hblock => ?_
  have hsizes : (site.blocks.set site.index block).map List.length = sizes := by
    rw [map_length_set h.block_eq hblock, h.lengths_eq]
  have hasked := h.evaluator.residuals _ hsizes
  refine (hasked.mono (fun _ hx => hx) fun _ hf => hf.elim).bind fun reply hreply => ?_
  cases reply with
  | none => exact .throw ⟨_, rfl⟩
  | some answer =>
      obtain ⟨xs, hread, hlength⟩ := (hreply answer rfl).exists_readResiduals
      rw [← h.evaluator.numResiduals_eq] at hread
      exact .ofExcept_ok hread hlength

theorem Answered.centralDifference_promises (h : site.Answered rows sizes) (i : ℕ) (step : α) :
    (site.centralDifference i step).Promises (fun xs => xs.length = rows)
      Fault.IsEvaluation := by
  refine (h.residuals_promises i step).bind fun ahead hahead => ?_
  refine (h.residuals_promises i (-step)).bind fun behind hbehind => .pure ?_
  rw [List.length_map, List.length_zipWith, hahead, hbehind, Nat.min_self]

/-- **What can stop a column** of a Jacobian. -/
theorem Answered.column_promises (h : site.Answered rows sizes) (o : DiffOptions α)
    (base : List α) (i : ℕ) (scale : α) :
    (site.column o base i scale).Promises (fun _ => True) o.Stops := by
  unfold column
  cases hscheme : o.scheme with
  | forward =>
      exact ((h.residuals_promises i _).mono (fun _ hx => hx) fun _ hf => .inl hf).bind
        fun ahead _ => .pure trivial
  | central =>
      exact (h.centralDifference_promises i _).mono (fun _ _ => trivial) fun _ hf => .inl hf
  | ridders =>
      have hcentral : ∀ step, (do return Supplied.vector (← site.centralDifference i step) :
          Action σ (Supplied α)).Promises
            (fun value => ∃ t, value.read = .ok t ∧ t.shape = [rows]) o.Stops := by
        intro step
        refine ((h.centralDifference_promises i step).mono (fun _ hx => hx)
          fun _ hf => .inl hf).bind fun xs hxs => .pure ⟨.vector xs, rfl, ?_⟩
        rw [Tensor.shape_vector, hxs]
      have hstart : Ridders.Search.Sized ⟨[], o.stepSize scale, none, none⟩ [rows] 0 :=
        ⟨rfl, nofun, nofun⟩
      have hlimit : (Ridders.derivative (fun step => do
          return .vector (← site.centralDifference i step)) (o.stepSize scale) o).Promises
            (fun _ => True) o.Stops :=
        (Ridders.search_promises hscheme hcentral hstart (Nat.zero_add _).le).bind fun s _ =>
          .pure trivial
      exact hlimit.bind fun t _ => .pure trivial

end Site

/-! ### Estimates -/

/-- There is a scale for each tangent coordinate, as far as there are vectors so long. -/
theorem exists_tangentScales {block : List α} {manifold : Option (Manifold σ α)} {width : ℕ}
    (hm : ∀ m ∈ manifold, m.Total block.length width) (hheld : Shape.Held [block.length])
    (shown : String) : ∃ scales, tangentScales shown block manifold = .ok (some scales) := by
  cases manifold with
  | none => exact ⟨_, rfl⟩
  | some m =>
      have htotal := hm m rfl
      have hwidth : Shape.Held [width] := hheld.mono (.cons htotal.width_le .nil)
      exact ⟨_, tangentScales_eq htotal.ambientSize_eq htotal.tangentSize_eq hwidth shown⟩

/-- The residuals that an estimate starts from are read without a fault. -/
theorem baseResiduals_promises {e : Evaluator σ α} (he : e.numResiduals = .count rows)
    {o : DiffOptions α} (blocks : List (List α)) {base : List α} (hbase : base.length = rows) :
    (baseResiduals e blocks o (some (.vector base))).Promises (fun _ => True) fun _ => False := by
  subst hbase
  obtain ⟨xs, hread, -⟩ := (Supplied.hasEntries_vector base).exists_readResiduals
  unfold baseResiduals
  cases o.scheme with
  | forward =>
      rw [he]
      exact .ofExcept_ok hread trivial
  | central => exact .pure trivial
  | ridders => exact .pure trivial

/-- **What can stop an estimate**: a value that is missing at a step, or the settings. -/
theorem estimate_promises {e : Evaluator σ α} (he : e.Responds rows sizes) {o : DiffOptions α}
    {blocks : List (List α)} (hb : blocks.map List.length = sizes) {k : ℕ} {block : List α}
    (hk : blocks[k]? = some block) {manifold : Option (Manifold σ α)} {width : ℕ}
    (hcoordinates : HasCoordinates manifold block.length width)
    (hm : ∀ m ∈ manifold, m.Total block.length width) (hrows : Shape.Held [rows])
    (hheld : Shape.Held [block.length]) {base : List α} (hbase : base.length = rows) :
    (estimate e (blocks.map .vector) (.count k) manifold o (some (.vector base))).Promises
      (fun _ => True) o.Stops := by
  have hread : readBlocks (blocks.map .vector) e.blockSizes = .ok blocks := by
    rw [he.blockSizes_eq, ← hb]
    exact readBlocks_vector blocks
  obtain ⟨hlt, hget⟩ := List.getElem?_eq_some_iff.1 hk
  have hblock : blockAt blocks (.count k) = .ok (k, block) := hget ▸ blockAt_count blocks k hlt
  obtain ⟨scales, hscales⟩ := exists_tangentScales hm hheld (Setting.count k).shown
  have hwidth : scales.length = width := length_of_tangentScales hcoordinates hscales
  unfold estimate
  refine .ofExcept_bind hread (.ofExcept_bind hblock (.ofExcept_bind hscales ?_))
  cases scales with
  | nil =>
      have hrank : [rows, 0].length ≤ Shape.maxRank := show 2 ≤ 64 from by decide
      have hzeros := zeros_eq (α := α) hrows.without_columns hrank
      rw [he.numResiduals_eq]
      exact .ofExcept_ok hzeros trivial
  | cons scale rest =>
      have hstart := baseResiduals_promises he.numResiduals_eq (o := o) blocks hbase
      refine (hstart.mono (fun _ h => h) fun _ hf => hf.elim).bind fun start _ => ?_
      let site : Site σ α := ⟨e, blocks, k, (Setting.count k).shown, block, manifold,
        (scale :: rest).length⟩
      have hsite : site.Answered rows sizes := by
        subst hwidth
        exact ⟨he, hb, hk, hcoordinates, hm⟩
      have hcolumns : ∀ task ∈ (scale :: rest).zipIdx.map fun p => site.column o start p.2 p.1,
          task.Promises (fun _ => True) o.Stops := by
        intro task htask
        obtain ⟨p, -, rfl⟩ := List.mem_map.1 htask
        exact hsite.column_promises o start p.2 p.1
      have hextent : e.numResiduals.extent = .ok (rows : ℤ) := by
        rw [he.numResiduals_eq]
        exact hrows.extent_eq List.mem_cons_self
      refine .ofExcept_bind (x := scale :: rest) rfl ?_
      exact (Workers.run_promises hcolumns fun _ hf => .inr (.inl hf)).bind fun columns _ =>
        .ofExcept_bind hextent (.pure trivial)

end JacobianAudit
