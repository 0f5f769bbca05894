/-
**Probes without manifolds, coordinate by coordinate.**

Where no block lives on a manifold and the evaluator is deterministic, a numeric Jacobian consists
of columns that can each be computed by itself. A probe that gets through its blocks has them all,
and where one is interrupted, the column of some coordinate has no value.

Main definitions:

* `JacobianAudit.Checker.Free` — a checker without manifolds;
* `JacobianAudit.Checker.columnAt` — the column of a coordinate in a probe;
* `JacobianAudit.Checker.Measured`, `JacobianAudit.Checker.Concludes` — what a probe that compares
  has measured, and how one that answers ends, in terms of the columns.

Main results:

* `JacobianAudit.Workers.fst_run` — what a run of deterministic tasks answers;
* `JacobianAudit.Checker.fst_along` — a numeric Jacobian in terms of its columns;
* `JacobianAudit.Checker.Free.exists_columns`, `JacobianAudit.Checker.Free.of_stopped` — completed
  and interrupted probes;
* `JacobianAudit.Checker.Free.concludes` — **how a probe without manifolds ends if it answers**.
-/

import JacobianAudit.Proofs.Matching
import JacobianAudit.Proofs.Standalone

set_option autoImplicit false

namespace JacobianAudit

variable {σ α β : Type}

/-! ### Deterministic tasks -/

/-- **What a run of deterministic tasks answers**: in a pool or not, the answers that the tasks give
wherever they are run. -/
theorem Workers.fst_run {n : ℕ} {tasks : ℕ → Action σ β} (h : ∀ i, (tasks i).Deterministic)
    (setting : Setting) (machine : Machine) (w : World σ) :
    ((run setting ((List.range n).map tasks)).perform machine w).1 =
      requested setting >>= fun _ =>
        (List.range n).mapM fun i => ((tasks i).perform machine w).1 := by
  cases hs : requested setting with
  | error fault => rw [run_of_requested_error hs]; rfl
  | ok k =>
      -- on this machine the tasks cannot be told from their answers
      let p : Coupling σ := ⟨fun a b => a = machine ∧ b = machine, fun _ _ => True⟩
      let outcome : ℕ → Except Fault β × List Unit := fun i =>
        (((tasks i).perform machine w).1, [])
      let answer : ℕ → Action σ β := fun i => .ofExcept (outcome i).1
      have hsame : List.Forall₂ (Action.Coupled p Eq) ((List.range n).map tasks)
          ((List.range n).map answer) := by
        rw [List.forall₂_map_left_iff, List.forall₂_map_right_iff, List.forall₂_same]
        rintro i - _ _ v v' ⟨rfl, rfl⟩ -
        refine ⟨?_, trivial⟩
        rw [Action.perform_ofExcept, h i _ v w]
        exact .rfl
      have hruns : p.SameRuns setting setting :=
        Coupling.sameRuns_of_eq (fun a b (h : a = machine ∧ b = machine) => h.1.trans h.2.symm) _
      have hdoes : ∀ i < n, (answer i).Does (fun _ => []) (outcome i).1 (outcome i).2 :=
        fun _ _ => .ofExcept _
      obtain ⟨-, -, hrun, -⟩ := run_does ⟨k, hs⟩ hdoes machine w
      exact (hruns _ _ hsame machine machine w w ⟨rfl, rfl⟩ trivial).1.eq.trans hrun

variable [Scalar α]

/-! ### The entries of a matrix that is made of columns -/

theorem getElem?_ofColumns {rows i r : ℕ} {columns : List (List α)} {column : List α}
    (hr : r < rows) (hi : columns[i]? = some column) :
    (ofColumns rows columns).data[r * columns.length + i]? =
      some (column[r]?.getD Scalar.nan) := by
  obtain ⟨hlt, -⟩ := List.getElem?_eq_some_iff.1 hi
  have hshape : (ofColumns rows columns).shape = [rows, columns.length] := Tensor.shape_matrix ..
  have hplace : r * columns.length + i < (ofColumns rows columns).data.length :=
    length_data_matrix hshape ▸ row_col_lt hr hlt
  have hget : (ofColumns rows columns).get [r, i] = column[r]?.getD Scalar.nan := by
    rw [ofColumns, Tensor.get_matrix _ hr hlt, hi, Option.bind_some]
  rw [List.getElem?_eq_getElem hplace, ← get_of_lt hshape hplace, hget]

namespace Checker

variable {c : Checker σ α} {machine : Machine} {w w' : World σ} {blocks : List (List α)}
  {jacobians : List (Tensor α)} {residuals : List α} {recording : Bool} {rows k : ℕ}
  {sizes : List ℕ}

/-- A checker of a deterministic evaluator with blocks of given sizes, none of them on a
manifold. -/
structure Free (c : Checker σ α) (rows : ℕ) (sizes : List ℕ) : Prop where
  declares : c.Declares rows sizes sizes
  deterministic : c.evaluator.Has fun _ a => a.Deterministic
  blockSizes : c.evaluator.blockSizes = sizes.map .count
  pos : ∀ n ∈ sizes, 0 < n
  ne_nil : sizes ≠ []
  manifold : ∀ space ∈ c.spaces, space.manifold = none

/-- A checker that was accepted without manifolds has none. -/
theorem free_of_make {manifolds : Option (List (Option (Manifold σ α)))} {options : DiffOptions α}
    {cap : Setting} (h : make c.evaluator manifolds options cap = .ok c)
    (hnone : ∀ given ∈ manifolds, ∀ m ∈ given, m = none)
    (hdeterministic : c.evaluator.Has fun _ a => a.Deterministic)
    (hsizes : c.evaluator.blockSizes = sizes.map .count)
    (hrows : c.evaluator.numResiduals = .count rows) : c.Free rows sizes := by
  obtain ⟨-, -, ⟨accepted, hread, hdeclared⟩, hgiven⟩ := of_make h
  have hmanifold : ∀ space ∈ c.spaces, space.manifold = none := by
    intro space hspace
    by_contra hsome
    obtain ⟨m, hm⟩ := Option.ne_none_iff_exists'.1 hsome
    obtain ⟨given, hmanifolds, hmem⟩ := hgiven space hspace m hm
    cases hnone given hmanifolds _ hmem
  have hwhole : c.evaluator.blockSizes = (sizes.map Int.ofNat).map .whole := by
    rw [hsizes, List.map_map]
    rfl
  obtain ⟨ints, -, hcheck⟩ := Except.bind_eq_ok_iff.1 hread
  have hpos := pos_of_checkSizes hcheck
  rw [hwhole] at hread
  obtain ⟨rfl, hne⟩ := readSizes_whole hread
  have hdeclares : c.sizes = sizes.map .count := hdeclared.trans (hwhole.symm.trans hsizes)
  refine ⟨⟨hrows, hdeclares, hdeclares ▸ List.map_congr_left fun space hspace => ?_⟩,
    hdeterministic, hsizes, fun n hn => ?_, by simpa using hne, hmanifold⟩
  · rw [BlockSpace.tangentSize, hmanifold space hspace]
  · exact Int.ofNat_lt.1 (hpos n (List.mem_map_of_mem hn))

/-- The residuals that forward differences start from. The other schemes need none. -/
def start (c : Checker σ α) (residuals : List α) : List α :=
  match c.options.scheme with
  | .forward => residuals
  | _ => []

/-- The column of a coordinate, where the residuals at the point are known. -/
def columnAt (c : Checker σ α) (blocks : List (List α)) (residuals : List α) (k i : ℕ) :
    Action σ (List α) :=
  c.evaluator.columnAt c.options blocks (c.start residuals) k i

namespace Free

variable (hc : c.Free rows sizes) (hblocks : blocks.map List.length = sizes)
  (hresiduals : residuals.length = rows)

include hc

theorem columnAt_deterministic (k i : ℕ) : (c.columnAt blocks residuals k i).Deterministic := by
  have hfree : ∀ m ∈ (c.evaluator.siteAt blocks k).manifold,
      m.Has fun _ a => a.Deterministic := fun m hm => absurd hm (Option.not_mem_none m)
  have hcolumn : ∀ o base i scale,
      ((c.evaluator.siteAt blocks k).column o base i scale).Deterministic :=
    Site.column_inherits Action.inherited_deterministic.chained hc.deterministic hfree
  unfold columnAt Evaluator.columnAt Site.columns
  split
  · exact hcolumn _ _ _ _
  · exact Action.inherited_deterministic.pure []

include hblocks hresiduals

/-- **A numeric Jacobian in terms of its columns.** -/
theorem fst_along {block : List α} (hk : blocks[k]? = some block) :
    ((c.along blocks residuals k none).perform machine w).1 =
      Workers.requested c.options.workers >>= fun _ =>
        ((List.range block.length).mapM fun i =>
          ((c.columnAt blocks residuals k i).perform machine w).1) >>= fun columns =>
        (Setting.count rows).extent.map fun rows => ofColumns rows.toNat columns := by
  obtain ⟨hlt, hget⟩ := List.getElem?_eq_some_iff.1 hk
  have hread : readBlocks (blocks.map .vector) c.evaluator.blockSizes = .ok blocks := by
    rw [hc.blockSizes, ← hblocks]
    exact readBlocks_vector blocks
  have hat : blockAt blocks (.count k) = .ok (k, block) := hget ▸ blockAt_count blocks k hlt
  have hne : block.map Scalar.abs ≠ [] := by
    intro h
    have hsize : block.length ∈ sizes := hblocks ▸ List.mem_map_of_mem (List.mem_of_getElem? hk)
    have hpos := hc.pos _ hsize
    rw [List.map_eq_nil_iff.1 h, List.length_nil] at hpos
    exact absurd hpos (lt_irrefl 0)
  have hstart : baseResiduals c.evaluator blocks c.options (some (.vector residuals)) =
      pure (c.start residuals) := by
    unfold baseResiduals start
    cases c.options.scheme with
    | forward =>
        simp only []
        rw [hc.declares.numResiduals_eq, ← hresiduals, readResiduals_of_entries (entries_vector _)]
        rfl
    | _ => rfl
  have hcolumn : ∀ i, (c.columnAt blocks residuals k i) =
      Site.columns ⟨c.evaluator, blocks, k, (Setting.count k).shown, block, none,
        (block.map Scalar.abs).length⟩ c.options (c.start residuals) (block.map Scalar.abs) i := by
    intro i
    unfold columnAt Evaluator.columnAt Evaluator.siteAt
    rw [hk, Option.getD_some, List.length_map]
  unfold along
  rw [estimate_eq hread hat rfl hne, hstart, pure_bind, Action.fst_perform_bind_ofExcept,
    Workers.fst_run fun i => hcolumn i ▸ hc.columnAt_deterministic k i, bind_assoc, List.length_map,
    hc.declares.numResiduals_eq]
  simp only [hcolumn, List.length_map]

/-- What a numeric Jacobian is made of. -/
theorem of_along {block : List α} (hk : blocks[k]? = some block) {t : Tensor α}
    (h : ((c.along blocks residuals k none).perform machine w).1 = .ok t) :
    ∃ columns, columns.length = block.length ∧ t = ofColumns rows columns ∧
      ∀ i (hi : i < columns.length),
        ((c.columnAt blocks residuals k i).perform machine w).1 = .ok columns[i] := by
  rw [hc.fst_along hblocks hresiduals hk] at h
  obtain ⟨-, -, h⟩ := Except.bind_eq_ok_iff.1 h
  obtain ⟨columns, hcolumns, h⟩ := Except.bind_eq_ok_iff.1 h
  obtain ⟨extent, hextent, rfl⟩ := Except.map_eq_ok_iff.1 h
  obtain rfl : (rows : ℤ) = extent := Setting.whole.inj (eq_whole_of_extent hextent)
  obtain ⟨hlength, hone⟩ := Except.mapM_eq_ok_iff_getElem.1 hcolumns
  rw [List.length_range] at hlength
  refine ⟨columns, hlength.symm, rfl, fun i hi => ?_⟩
  have hcolumn := hone i (by simpa [hlength] using hi) hi
  rwa [List.getElem_range] at hcolumn

/-- Where there is no numeric Jacobian for want of a value, there is no value for some column. -/
theorem of_along_evaluation {block : List α} (hk : blocks[k]? = some block)
    {cause : EvaluationFault}
    (h : ((c.along blocks residuals k none).perform machine w).1 = .error (.evaluation cause)) :
    ∃ i < block.length,
      ((c.columnAt blocks residuals k i).perform machine w).1 = .error (.evaluation cause) := by
  rw [hc.fst_along hblocks hresiduals hk] at h
  rcases Except.bind_eq_error_iff.1 h with h | ⟨-, -, h⟩
  · -- the setting of workers says nothing of the evaluator
    unfold Workers.requested at h
    split at h <;> cases h
  · rcases Except.bind_eq_error_iff.1 h with h | ⟨columns, -, h⟩
    · obtain ⟨i, hi, hcolumn⟩ := Except.exists_of_mapM_eq_error h
      exact ⟨i, List.mem_range.1 hi, hcolumn⟩
    · cases hextent : (Setting.count rows).extent with
      | error fault =>
          -- nor does a number of rows that no array can have
          rw [hextent] at h
          obtain rfl := Except.error.inj h
          unfold Setting.extent at hextent
          dsimp only at hextent
          split at hextent <;> cases hextent
      | ok extent =>
          rw [hextent] at h
          cases h

omit hblocks hresiduals

/-- The numeric Jacobian along the tangent coordinates is the one along the entries. -/
theorem numeric_eq {space : BlockSpace σ α} (hspace : space ∈ c.spaces) :
    c.numeric blocks residuals recording k space =
      c.along blocks residuals k none >>= fun t =>
        pure (t, if recording then [t] else []) := by
  unfold numeric
  rw [hc.manifold space hspace]
  refine congrArg (c.along blocks residuals k none >>= ·) (funext fun t => ?_)
  cases recording <;> rfl

/-- The Jacobian of a block that is free is its projection. -/
theorem project_eq {space : BlockSpace σ α} (hspace : space ∈ c.spaces) {jacobian : Tensor α}
    {cols : ℕ} (h : jacobian.shape = [rows, cols]) (point : Supplied α) :
    project (.array jacobian) space.manifold point = pure jacobian := by
  unfold project
  rw [hc.manifold space hspace, Action.ofExcept_bind_eq (Supplied.read_array jacobian), h]

include hblocks hresiduals

variable (hjacobians : jacobians.map Tensor.shape = sizes.map fun n => [rows, n])
  {ms : List (BlockMatrices α)}
  (hms : c.Differentiates machine blocks residuals recording (c.tasks blocks jacobians) w ms w')

include hjacobians hms

/-- What a probe that gets through all blocks knows of each of them. -/
theorem at_block (hk : k < sizes.length) :
    ∃ m columns, ms[k]? = some m ∧ jacobians[k]? = some m.tangent ∧
      m.numericTangent = ofColumns rows columns ∧
      m.numericAmbient = (if recording then [m.numericTangent] else []) ∧
      columns.length = sizes[k] ∧ ∀ i (hi : i < columns.length) v,
        ((c.columnAt blocks residuals k i).perform machine v).1 = .ok columns[i] := by
  have hspaces : k < c.spaces.length := hc.declares.length_eq.1 ▸ hk
  have hblock : k < blocks.length := by
    rw [← hblocks, List.length_map] at hk
    exact hk
  have hjacobian : k < jacobians.length := by
    have hlength := congrArg List.length hjacobians
    rw [List.length_map, List.length_map] at hlength
    omega
  have hshape : jacobians[k].shape = [rows, sizes[k]] := by
    simpa [hk, hjacobian] using congrArg (fun l => l[k]?) hjacobians
  have hsize : blocks[k].length = sizes[k] := by
    simpa [hk, hblock] using congrArg (fun l => l[k]?) hblocks
  have hspace : c.spaces[k] ∈ c.spaces := List.getElem_mem hspaces
  obtain ⟨m, _, _, _, _, hm, -, hp, hn⟩ := hms.at_block (getElem?_tasks_iff.2
    ⟨rfl, List.getElem?_eq_getElem hspaces, List.getElem?_eq_getElem hblock,
      List.getElem?_eq_getElem hjacobian⟩)
  rw [hc.project_eq hspace hshape, Action.perform_pure] at hp
  have htangent : jacobians[k] = m.tangent := Except.ok.inj (Prod.mk.inj hp).1
  rw [hc.numeric_eq hspace] at hn
  obtain ⟨t, _, ht, hn⟩ := Action.perform_bind_eq_ok_iff.1 hn
  obtain ⟨rfl, hambient⟩ := Prod.mk.inj (Except.ok.inj (Prod.mk.inj hn).1)
  obtain ⟨columns, hlength, hcolumns, hone⟩ := hc.of_along hblocks hresiduals
    (List.getElem?_eq_getElem hblock) (congrArg Prod.fst ht)
  exact ⟨m, columns, hm, by rw [List.getElem?_eq_getElem hjacobian, htangent], hcolumns,
    hambient.symm, hlength.trans hsize, fun i hi v =>
      (hc.columnAt_deterministic k i machine v _).trans (hone i hi)⟩

omit hresiduals in
theorem length_eq : ms.length = sizes.length := by
  have hspaces := hc.declares.length_eq.1
  rw [hms.length_eq, c.length_tasks, hspaces]
  · rw [← hspaces, ← hblocks, List.length_map]
  · simpa [hspaces] using congrArg List.length hjacobians

/-- The Jacobians are their own projections. -/
theorem map_tangent : ms.map (·.tangent) = jacobians := by
  have hlength := hc.length_eq hblocks hjacobians hms
  have hcount : jacobians.length = sizes.length := by
    simpa using congrArg List.length hjacobians
  refine List.ext_getElem (by rw [List.length_map, hlength, hcount]) fun k hk hk' => ?_
  obtain ⟨m, _, hm, hjacobian, -⟩ := hc.at_block hblocks hresiduals hjacobians hms (hcount ▸ hk')
  obtain ⟨_, rfl⟩ := List.getElem?_eq_some_iff.1 hm
  rw [List.getElem?_eq_getElem hk'] at hjacobian
  rw [List.getElem_map, Option.some.inj hjacobian]

/-- Where a record is kept, the numeric Jacobians serve for it as well. -/
theorem flatMap_numericAmbient (hrecording : recording = true) :
    ms.flatMap (·.numericAmbient) = ms.map (·.numericTangent) := by
  have hone : ∀ m ∈ ms, m.numericAmbient = [m.numericTangent] := by
    intro m hm
    obtain ⟨k, hk, rfl⟩ := List.getElem_of_mem hm
    obtain ⟨m, _, hm, -, -, hambient, -⟩ := hc.at_block hblocks hresiduals hjacobians hms
      (hc.length_eq hblocks hjacobians hms ▸ hk)
    rw [List.getElem?_eq_getElem hk] at hm
    rw [Option.some.inj hm, hambient, if_pos hrecording]
  rw [List.flatMap_congr hone, ← List.map_eq_flatMap]

/-- **A probe that gets through all blocks has computed the column of each coordinate**, and its
numeric Jacobians hold the columns. -/
theorem exists_columns : ∃ column : Place sizes → List α,
    (∀ q v, ((c.columnAt blocks residuals q.1 q.2).perform machine v).1 = .ok (column q)) ∧
      ∀ q, ∀ r < rows, q.entryIn (ms.map fun m => m.numericTangent.data) r =
        some ((column q)[r]?.getD Scalar.nan) := by
  have hcolumn : ∀ q : Place sizes, ∃ column : List α,
      (∀ v, ((c.columnAt blocks residuals q.1 q.2).perform machine v).1 = .ok column) ∧
        ∀ r < rows, q.entryIn (ms.map fun m => m.numericTangent.data) r =
          some (column[r]?.getD Scalar.nan) := by
    rintro ⟨⟨k, hk⟩, i, hi⟩
    obtain ⟨m, columns, hm, -, hnumeric, -, hlength, hone⟩ :=
      hc.at_block hblocks hresiduals hjacobians hms hk
    have hi' : i < columns.length := hlength ▸ hi
    refine ⟨columns[i], hone i hi', fun r hr => ?_⟩
    have hentry := getElem?_ofColumns hr (List.getElem?_eq_getElem hi')
    rw [hlength] at hentry
    simp only [Place.entryIn, List.getElem?_map, hm, Option.map_some, Option.bind_some, hnumeric]
    exact hentry
  choose column hcolumn hentry using hcolumn
  exact ⟨column, hcolumn, hentry⟩

omit hjacobians hms

/-- **Where a probe is interrupted for want of a value**, there is none for the column of some
coordinate. -/
theorem of_stopped {reading : Reading α} {progress : Progress α} {cause : EvaluationFault}
    (hread : reading.residuals = residuals)
    (hshapes : reading.jacobians.map Tensor.shape = sizes.map fun n => [rows, n])
    (h : (c.differentiate blocks reading recording (c.tasks blocks reading.jacobians) {}).perform
      machine w = (.ok (progress, some (k, .evaluation cause)), w')) :
    ∃ (q : Place sizes) (v : World σ),
      ((c.columnAt blocks residuals q.1 q.2).perform machine v).1 = .error (.evaluation cause) := by
  subst hread
  obtain ⟨done, ⟨i, space, block, jacobian⟩, rest, ms, v, kept, htodo, -, -, hstops, -⟩ :=
    of_differentiate_some h
  obtain ⟨rfl, hspace, hblock, hjacobian⟩ := getElem?_tasks_iff.1
    (show (c.tasks blocks reading.jacobians)[done.length]? = some (i, space, block, jacobian) by
      rw [htodo, List.getElem?_append_right le_rfl, Nat.sub_self, List.getElem?_cons_zero])
  have hmem : space ∈ c.spaces := List.mem_of_getElem? hspace
  obtain ⟨hlt, hget⟩ := List.getElem?_eq_some_iff.1 hblock
  have hsize : sizes[done.length]? = some block.length := by
    rw [← hblocks, List.getElem?_map, hblock, Option.map_some]
  obtain ⟨hk, hlength⟩ := List.getElem?_eq_some_iff.1 hsize
  have hshape : jacobian.shape = [rows, block.length] := by
    have hshape := congrArg (fun l => l[done.length]?) hshapes
    simp only [List.getElem?_map, hjacobian, hsize, Option.map_some, Option.some.injEq] at hshape
    exact hshape
  cases hstops with
  | projection hp =>
      rw [hc.project_eq hmem hshape, Action.perform_pure] at hp
      cases (Prod.mk.inj hp).1
  | derivative hp hn =>
      rw [hc.numeric_eq hmem] at hn
      rcases Action.perform_bind_eq_error_iff.1 hn with hn | ⟨_, _, -, hn⟩
      · obtain ⟨i, hi, hcolumn⟩ := hc.of_along_evaluation hblocks hresiduals hblock
          (congrArg Prod.fst hn)
        exact ⟨⟨⟨done.length, hk⟩, i, by simpa [hlength] using hi⟩, _, hcolumn⟩
      · cases (Prod.mk.inj hn).1

end Free

/-! ### Endings -/

/-- What a probe without manifolds has when it gets to compare: the column of each coordinate. -/
structure Measured (c : Checker σ α) (machine : Machine) (blocks : List (List α)) (recording : Bool)
    (rows : ℕ) (sizes : List ℕ) (reading : Reading α) (progress : Progress α)
    (column : Place sizes → List α) : Prop where
  columns (q : Place sizes) (v : World σ) :
    ((c.columnAt blocks reading.residuals q.1 q.2).perform machine v).1 = .ok (column q)
  tangent : progress.tangent = reading.jacobians
  shapes : progress.numericTangent.map Tensor.shape = sizes.map fun n => [rows, n]
  ambient : recording = true → progress.numericAmbient = progress.numericTangent
  entries (q : Place sizes) (r : ℕ) : r < rows →
    q.entryIn (progress.numericTangent.map Tensor.data) r = some ((column q)[r]?.getD Scalar.nan)

/-- How a probe without manifolds ends if it answers. -/
inductive Concludes (c : Checker σ α) (machine : Machine) (blocks : List (List α)) (tolerance : α)
    (recording : Bool) (rows : ℕ) (sizes : List ℕ) (w : World σ) : Ending α → Prop
  | pointFailed :
      ((c.read blocks).perform machine w).1 = .ok none →
      Concludes c machine blocks tolerance recording rows sizes w .pointFailed
  | interrupted {reading : Reading α} {progress : Progress α} {k : ℕ} {cause : EvaluationFault}
      {q : Place sizes} {v : World σ} :
      ((c.read blocks).perform machine w).1 = .ok (some reading) →
      ((c.columnAt blocks reading.residuals q.1 q.2).perform machine v).1 =
        .error (.evaluation cause) →
      Concludes c machine blocks tolerance recording rows sizes w
        (.interrupted reading progress k (.evaluation cause))
  | compared {reading : Reading α} {progress : Progress α}
      {comparisons : List (BlockComparison α)} {column : Place sizes → List α} :
      ((c.read blocks).perform machine w).1 = .ok (some reading) →
      c.Measured machine blocks recording rows sizes reading progress column →
      compare progress tolerance = .ok comparisons →
      Concludes c machine blocks tolerance recording rows sizes w
        (.compared reading progress comparisons)

variable {tolerance : α}

/-- The matrices of a probe that gets through all blocks. -/
theorem Free.measured (hc : c.Free rows sizes) (hblocks : blocks.map List.length = sizes)
    {reading : Reading α} (hresiduals : reading.residuals.length = rows)
    (hjacobians : reading.jacobians.map Tensor.shape = sizes.map fun n => [rows, n])
    {ms : List (BlockMatrices α)}
    (hms : c.Differentiates machine blocks reading.residuals recording
      (c.tasks blocks reading.jacobians) w ms w') :
    ∃ column, c.Measured machine blocks recording rows sizes reading (Progress.extend {} ms)
      column := by
  obtain ⟨column, hcolumns, hentries⟩ := hc.exists_columns hblocks hresiduals hjacobians hms
  obtain ⟨-, hshapes, -⟩ := shapes_of_extend
    (hms.shapes hc.declares.numResiduals_eq (hc.declares.fits hblocks hjacobians))
  rw [hc.declares.map_dims.2] at hshapes
  refine ⟨column, hcolumns, ?_, hshapes, fun hrecording => ?_, fun q r hr => ?_⟩
  · exact hc.map_tangent hblocks hresiduals hjacobians hms
  · exact hc.flatMap_numericAmbient hblocks hresiduals hjacobians hms hrecording
  · rw [← hentries q r hr]
    exact congrArg (q.entryIn · r) List.map_map

/-- **How a probe without manifolds ends if it answers.** -/
theorem Free.concludes (hc : c.Free rows sizes) (hblocks : blocks.map List.length = sizes)
    {ending : Ending α} {verdict : Bool} (h : c.Ends machine blocks tolerance recording w ending)
    (hv : ending.verdict tolerance = .ok verdict) :
    c.Concludes machine blocks tolerance recording rows sizes w ending := by
  cases h with
  | faulted hread => cases hv
  | pointFailed hread => exact .pointFailed (congrArg Prod.fst hread)
  | interrupted hread hd =>
      obtain ⟨hresiduals, hjacobians⟩ := hc.declares.of_read hblocks hread
      obtain ⟨-, cause, rfl⟩ := evaluation_of_verdict hv
      obtain ⟨q, v, hcolumn⟩ := hc.of_stopped hblocks hresiduals rfl hjacobians hd
      exact .interrupted (congrArg Prod.fst hread) hcolumn
  | incomparable hread hms hcompare =>
      -- matrices of one shape can be compared
      obtain ⟨-, hjacobians⟩ := hc.declares.of_read hblocks hread
      have hsized := hms.shapes hc.declares.numResiduals_eq (hc.declares.fits hblocks hjacobians)
      obtain ⟨comparisons, hcompared⟩ := exists_compare tolerance fun m hm => by
        obtain ⟨d, -, hd⟩ := exists_of_forall₂_mem hsized.flip hm
        exact ⟨rows, d.2, hd.tangent, hd.numericTangent⟩
      rw [hcompare] at hcompared
      cases hcompared
  | compared hread hms hcompare =>
      obtain ⟨hresiduals, hjacobians⟩ := hc.declares.of_read hblocks hread
      obtain ⟨column, hmeasured⟩ := hc.measured hblocks hresiduals hjacobians hms
      exact .compared (congrArg Prod.fst hread) hmeasured hcompare

end Checker

end JacobianAudit
