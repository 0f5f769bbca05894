/-
**Shapes in the record.**

The matrices of a record come from many sources: zero arrays, the evaluator's answer in either of
its layouts, projections, and numeric Jacobians that are put together column by column. They are
stored at different times, and a probe can end between any two of them. However it ends, the record
holds one matrix per block in each of its lists, with a row for each residual and a column for each
coordinate.

Main definitions:

* `JacobianAudit.Record.Sized` — the record has the declared shapes;
* `JacobianAudit.HasCoordinates` — how many tangent coordinates a block has;
* `JacobianAudit.Checker.Fits` — what is known of a block before it is worked on.

Main results:

* `JacobianAudit.shape_of_estimate`, `JacobianAudit.shape_of_project_eq` — the matrices of one
  block;
* `JacobianAudit.Checker.Differentiates.shapes` — those of a run over the blocks;
* `JacobianAudit.Checker.record_sized` — **after every probe that cleared it, the record has the
  declared shapes**.
-/

import JacobianAudit.Proofs.Endings
import JacobianAudit.Proofs.Verdict

set_option autoImplicit false

namespace JacobianAudit

variable {σ α : Type} [Scalar α]

/-- The record holds so many residuals, and one matrix per block in each of its lists: with as many
columns as the block has entries, or as it has tangent coordinates. -/
structure Record.Sized (r : Record α) (rows : ℕ) (sizes tangentSizes : List ℕ) : Prop where
  residuals : r.residuals.shape = [rows]
  ambient : r.ambient.map Tensor.shape = sizes.map fun n => [rows, n]
  numericAmbient : r.numericAmbient.map Tensor.shape = sizes.map fun n => [rows, n]
  tangent : r.tangent.map Tensor.shape = tangentSizes.map fun n => [rows, n]
  numericTangent : r.numericTangent.map Tensor.shape = tangentSizes.map fun n => [rows, n]

/-! ### Zero arrays -/

theorem shape_of_zeros {extents : List Setting} {t : Tensor α}
    (h : Tensor.zeros extents = .ok t) : extents = t.shape.map Setting.count := by
  obtain ⟨shape, hshape, h⟩ := Except.bind_eq_ok_iff.1 h
  rw [← Except.ok.inj h]
  exact (of_ofSettings hshape).1

/-- Zero matrices exist only for numbers of columns that are counts. -/
theorem shapes_of_zeroMatrices {rows : ℕ} {cols : List Setting} {ts : List (Tensor α)}
    (h : Record.zeroMatrices (.count rows) cols = .ok ts) :
    ∃ ns : List ℕ, cols = ns.map Setting.count ∧
      ts.map Tensor.shape = ns.map fun n => [rows, n] := by
  induction Except.mapM_eq_ok_iff.1 h with
  | nil => exact ⟨[], rfl, rfl⟩
  | @cons col t cols ts ht hrest ih =>
      obtain ⟨ns, hcols, hts⟩ := ih (Except.mapM_eq_ok_iff.2 hrest)
      match hshape : t.shape, shape_of_zeros ht with
      | [m, n], hextents =>
          obtain ⟨hm, rfl⟩ : (rows : ℤ) = m ∧ col = .count n := by simpa using hextents
          obtain rfl := Int.ofNat.inj hm
          exact ⟨n :: ns, by rw [hcols, List.map_cons], by simp [hshape, hts]⟩

/-! ### The matrices of one block -/

/-- A block of `n` entries has `m` tangent coordinates. -/
def HasCoordinates (manifold : Option (Manifold σ α)) (n m : ℕ) : Prop :=
  match manifold with
  | none => m = n
  | some M => M.tangentSize = .count m

omit [Scalar α] in
theorem BlockSpace.hasCoordinates {space : BlockSpace σ α} {n m : ℕ}
    (hn : space.size = .count n) (hm : space.tangentSize = .count m) :
    HasCoordinates space.manifold n m := by
  unfold tangentSize at hm
  unfold HasCoordinates
  cases hmanifold : space.manifold with
  | none =>
      rw [hmanifold] at hm
      exact Int.ofNat.inj (Setting.whole.inj (hm.symm.trans hn))
  | some M =>
      rw [hmanifold] at hm
      exact hm

variable {machine : Machine} {w w' : World σ}

/-- A projected Jacobian has a column for each tangent coordinate. -/
theorem shape_of_project_eq {jacobian t : Tensor α} {manifold : Option (Manifold σ α)}
    {point : Supplied α} {rows n m : ℕ} (hj : jacobian.shape = [rows, n])
    (hm : HasCoordinates manifold n m)
    (h : (project (.array jacobian) manifold point).perform machine w = (.ok t, w')) :
    t.shape = [rows, m] := by
  unfold project at h
  obtain ⟨j, w₁, hread, h⟩ := Action.perform_bind_eq_ok_iff.1 h
  obtain ⟨rfl, rfl⟩ : jacobian = j ∧ w = w₁ := by simpa using hread
  simp only [hj] at h
  cases manifold with
  | none =>
      obtain ⟨rfl, rfl⟩ : jacobian = t ∧ w = w' := by simpa using h
      obtain rfl : m = n := hm
      exact hj
  | some M =>
      simp only [] at h
      split at h
      · obtain ⟨step, w₂, hstep, h⟩ := Action.perform_bind_eq_ok_iff.1 h
        obtain ⟨rfl, rfl⟩ : _ = t ∧ w₂ = w' := by simpa using h
        have hcolumns : step.columns = m := by
          unfold stepJacobian at hstep
          obtain ⟨x, _, _, hstep⟩ := Action.perform_bind_eq_ok_iff.1 hstep
          obtain ⟨reply, _, _, hstep⟩ := Action.perform_bind_eq_ok_iff.1 hstep
          have hM : M.tangentSize = .count m := hm
          have hread : ∃ reply : Supplied α,
              readMatrix reply M.ambientSize M.tangentSize "plus_jacobian" = .ok step := by
            cases reply with
            | nothing => simp at hstep
            | array a => exact ⟨_, (Prod.mk.inj (by simpa using hstep)).1⟩
            | unreadable fault => exact ⟨_, (Prod.mk.inj (by simpa using hstep)).1⟩
          obtain ⟨reply, hread⟩ := hread
          obtain ⟨_, n', hshape, -, hn⟩ := equals_of_readMatrix hread
          rw [hM, Setting.equals_whole, decide_eq_true_eq] at hn
          rw [Tensor.columns, hshape]
          exact (Int.ofNat.inj hn).symm
        rw [Tensor.matmul_eq, Tensor.shape_matrix, hcolumns]
      · simp at h

/-- There is a scale for each tangent coordinate. -/
theorem length_of_tangentScales {shown : String} {block scales : List α}
    {manifold : Option (Manifold σ α)} {m : ℕ} (hm : HasCoordinates manifold block.length m)
    (h : tangentScales shown block manifold = .ok (some scales)) : scales.length = m := by
  unfold tangentScales at h
  cases manifold with
  | none =>
      obtain rfl := Option.some.inj (Except.ok.inj h)
      rw [List.length_map]
      exact hm.symm
  | some M =>
      simp only [] at h
      split at h
      · obtain ⟨shape, hshape, h⟩ := Except.bind_eq_ok_iff.1 h
        have hM : M.tangentSize = .count m := hm
        rw [hM] at hshape h
        obtain ⟨hextents, -⟩ := of_ofSettings hshape
        obtain rfl := Option.some.inj (Except.ok.inj h)
        match shape, hextents with
        | [n], hextents =>
            obtain rfl : m = n := Int.ofNat.inj (Setting.whole.inj (List.cons.inj hextents).1)
            simp
      · cases h

/-- A numeric Jacobian is made of zeros if there is nothing to move along, and otherwise of one
column for each scale. -/
theorem of_estimate {e : Evaluator σ α} {blocks : List (List α)} {k : ℕ} {block : List α}
    {manifold : Option (Manifold σ α)} {o : DiffOptions α} {base : Option (Supplied α)}
    {t : Tensor α} (hk : blocks[k]? = some block)
    (h : (estimate e (blocks.map .vector) (.count k) manifold o base).perform machine w =
      (.ok t, w')) :
    ∃ scales, tangentScales (Setting.count k).shown block manifold = .ok (some scales) ∧
      (scales = [] ∧ Tensor.zeros [e.numResiduals, .count 0] = .ok t ∨
        ∃ columns rows, columns.length = scales.length ∧ e.numResiduals.extent = .ok rows ∧
          t = ofColumns rows.toNat columns) := by
  obtain ⟨hlt, hget⟩ := List.getElem?_eq_some_iff.1 hk
  unfold estimate at h
  rw [Action.perform_bind_eq_ok_iff] at h
  obtain ⟨read, w₁, hread, h⟩ := h
  rw [Action.perform_ofExcept, Prod.mk.injEq] at hread
  obtain ⟨hread, rfl⟩ := hread
  obtain rfl := (readBlocks_vector_iff.1 hread).1
  rw [Action.perform_ofExcept_bind (blockAt_count _ k hlt), hget] at h
  rw [Action.perform_bind_eq_ok_iff] at h
  obtain ⟨scales, w₂, hscales, h⟩ := h
  rw [Action.perform_ofExcept, Prod.mk.injEq] at hscales
  obtain ⟨hscales, rfl⟩ := hscales
  split at h
  · rw [Action.perform_ofExcept, Prod.mk.injEq] at h
    exact ⟨[], hscales, .inl ⟨rfl, h.1⟩⟩
  · obtain ⟨start, w₄, -, h⟩ := Action.perform_bind_eq_ok_iff.1 h
    obtain ⟨found, w₅, hfound, h⟩ := Action.perform_bind_eq_ok_iff.1 h
    obtain ⟨columns, w₆, hcolumns, h⟩ := Action.perform_bind_eq_ok_iff.1 h
    obtain ⟨rows, w₇, hrows, h⟩ := Action.perform_bind_eq_ok_iff.1 h
    obtain ⟨hlength, -⟩ := (Workers.run_promises (fun task _ => .trivial task)
      fun _ _ => trivial).answers hcolumns
    rw [Action.perform_ofExcept, Prod.mk.injEq] at hfound hrows
    obtain ⟨rfl, -⟩ : _ = t ∧ _ := by simpa using h
    cases scales with
    | none => cases hfound.1
    | some scales =>
        obtain rfl : scales = found := Except.ok.inj hfound.1
        refine ⟨scales, hscales, .inr ⟨columns, rows, ?_, hrows.1, rfl⟩⟩
        simpa using hlength

/-- A numeric Jacobian has a row for each residual and a column for each tangent coordinate. -/
theorem shape_of_estimate {e : Evaluator σ α} {blocks : List (List α)} {k : ℕ} {block : List α}
    {manifold : Option (Manifold σ α)} {o : DiffOptions α} {base : Option (Supplied α)}
    {t : Tensor α} {rows m : ℕ} (hrows : e.numResiduals = .count rows)
    (hk : blocks[k]? = some block) (hm : HasCoordinates manifold block.length m)
    (h : (estimate e (blocks.map .vector) (.count k) manifold o base).perform machine w =
      (.ok t, w')) : t.shape = [rows, m] := by
  obtain ⟨scales, hscales, hzeros | ⟨columns, extent, hlength, hextent, rfl⟩⟩ := of_estimate hk h
  · obtain ⟨rfl, hzeros⟩ := hzeros
    obtain rfl : [].length = m := length_of_tangentScales hm hscales
    have hextents := shape_of_zeros hzeros
    rw [hrows] at hextents
    match hshape : t.shape, hextents with
    | [a, b], hextents =>
        obtain ⟨ha, hb⟩ : (rows : ℤ) = a ∧ (0 : ℤ) = b := by simpa [hshape] using hextents
        rw [Int.ofNat.inj ha, ← Int.ofNat.inj hb, List.length_nil]
  · have hcount := length_of_tangentScales hm hscales
    obtain rfl : (rows : ℤ) = extent :=
      Setting.whole.inj (hrows.symm.trans (eq_whole_of_extent hextent))
    rw [ofColumns, Tensor.shape_matrix, hlength, hcount, Int.toNat_natCast]

/-- The matrices of a block have a row for each residual and a column for each coordinate. Those
along the entries are there if a record is kept. -/
structure BlockMatrices.Sized (m : BlockMatrices α) (recording : Bool)
    (rows : ℕ) (dims : ℕ × ℕ) : Prop where
  tangent : m.tangent.shape = [rows, dims.2]
  numericTangent : m.numericTangent.shape = [rows, dims.2]
  numericAmbient : recording = true → m.numericAmbient.map Tensor.shape = [[rows, dims.1]]

omit [Scalar α] in
/-- The matrices of all blocks, list by list. -/
theorem shapes_of_extend {recording : Bool} {rows : ℕ} {ms : List (BlockMatrices α)}
    {dims : List (ℕ × ℕ)} (h : List.Forall₂ (fun m => m.Sized recording rows) ms dims) :
    (Progress.extend {} ms).tangent.map Tensor.shape = dims.map (fun d => [rows, d.2]) ∧
      (Progress.extend {} ms).numericTangent.map Tensor.shape =
        dims.map (fun d => [rows, d.2]) ∧
      (recording = true → (Progress.extend {} ms).numericAmbient.map Tensor.shape =
        dims.map fun d => [rows, d.1]) := by
  induction h with
  | nil => exact ⟨rfl, rfl, fun _ => rfl⟩
  | cons hm _ ih =>
      obtain ⟨htangent, hnumeric, hambient⟩ := ih
      refine ⟨?_, ?_, fun hr => ?_⟩
      · simpa [Progress.extend, hm.tangent] using htangent
      · simpa [Progress.extend, hm.numericTangent] using hnumeric
      · simpa [Progress.extend, hm.numericAmbient hr] using hambient hr

namespace Checker

variable {c : Checker σ α} {blocks : List (List α)} {residuals : List α} {recording : Bool}
  {rows : ℕ}

/-- What is known of a block before it is worked on: it has so many entries and so many tangent
coordinates, and its Jacobian a column for each entry. -/
structure Fits (blocks : List (List α)) (rows : ℕ)
    (task : ℕ × BlockSpace σ α × List α × Tensor α) (dims : ℕ × ℕ) : Prop where
  block_eq : blocks[task.1]? = some task.2.2.1
  length_eq : task.2.2.1.length = dims.1
  coordinates : HasCoordinates task.2.1.manifold dims.1 dims.2
  jacobian : task.2.2.2.shape = [rows, dims.1]

/-- The numeric Jacobians of one block. -/
theorem shape_of_numeric {task : ℕ × BlockSpace σ α × List α × Tensor α} {dims : ℕ × ℕ}
    {tangent : Tensor α} {ambient : List (Tensor α)}
    (hrows : c.evaluator.numResiduals = .count rows) (hfits : Fits blocks rows task dims)
    (h : (c.numeric blocks residuals recording task.1 task.2.1).perform machine w =
      (.ok (tangent, ambient), w')) :
    tangent.shape = [rows, dims.2] ∧
      (recording = true → ambient.map Tensor.shape = [[rows, dims.1]]) := by
  have hshape : ∀ {manifold : Option (Manifold σ α)} {m : ℕ} {t : Tensor α} {v v' : World σ},
      HasCoordinates manifold dims.1 m →
      (estimate c.evaluator (blocks.map .vector) (.count task.1) manifold c.options
        (some (.vector residuals))).perform machine v = (.ok t, v') → t.shape = [rows, m] :=
    fun hm ht => shape_of_estimate hrows hfits.block_eq (hfits.length_eq ▸ hm) ht
  unfold numeric at h
  obtain ⟨t, w₁, ht, h⟩ := Action.perform_bind_eq_ok_iff.1 h
  have htangent := hshape hfits.coordinates ht
  cases recording with
  | false =>
      obtain ⟨rfl, -⟩ := Prod.mk.inj (Except.ok.inj (Prod.mk.inj h).1)
      exact ⟨htangent, nofun⟩
  | true =>
      simp only [Bool.not_true, Bool.false_eq_true, if_false] at h
      have hcoordinates := hfits.coordinates
      split at h
      · -- without a manifold the entries are the coordinates
        rename_i hnone
        rw [hnone] at hcoordinates
        obtain ⟨rfl, rfl⟩ := Prod.mk.inj (Except.ok.inj (Prod.mk.inj h).1)
        have hsame : dims.2 = dims.1 := hcoordinates
        exact ⟨htangent, fun _ => by rw [List.map_singleton, htangent, hsame]⟩
      · obtain ⟨a, w₂, ha, h⟩ := Action.perform_bind_eq_ok_iff.1 h
        obtain ⟨rfl, rfl⟩ := Prod.mk.inj (Except.ok.inj (Prod.mk.inj h).1)
        have hentries : HasCoordinates (none : Option (Manifold σ α)) dims.1 dims.1 := rfl
        exact ⟨htangent, fun _ => by rw [List.map_singleton, hshape hentries ha]⟩

/-- **The matrices of a run over the blocks** have the declared shapes, block by block. -/
theorem Differentiates.shapes {todo : List (ℕ × BlockSpace σ α × List α × Tensor α)}
    {ms : List (BlockMatrices α)} {dims : List (ℕ × ℕ)}
    (hrows : c.evaluator.numResiduals = .count rows)
    (h : c.Differentiates machine blocks residuals recording todo w ms w')
    (hfits : List.Forall₂ (Fits blocks rows) todo dims) :
    List.Forall₂ (fun m => m.Sized recording rows) ms dims := by
  induction h generalizing dims with
  | nil =>
      cases hfits
      exact .nil
  | cons hp hn _ ih =>
      cases hfits with
      | cons hone hrest =>
          obtain ⟨htangent, hambient⟩ := shape_of_numeric hrows hone hn
          exact .cons ⟨shape_of_project_eq hone.jacobian hone.coordinates hp, htangent, hambient⟩
            (ih hrest)

/-- Where a run over the blocks is stopped, the projections that were made have the shapes of the
first blocks. -/
theorem shapes_of_differentiate_some {reading : Reading α}
    {todo : List (ℕ × BlockSpace σ α × List α × Tensor α)} {after : Progress α} {k : ℕ}
    {fault : Fault} {dims : List (ℕ × ℕ)} (hrows : c.evaluator.numResiduals = .count rows)
    (hfits : List.Forall₂ (Fits blocks rows) todo dims)
    (h : (c.differentiate blocks reading recording todo {}).perform machine w =
      (.ok (after, some (k, fault)), w')) :
    after.tangent.map Tensor.shape =
      (dims.map fun d => [rows, d.2]).take after.tangent.length := by
  obtain ⟨done, task, rest, ms, w₁, kept, rfl, -, hdone, hstops, rfl⟩ := of_differentiate_some h
  -- the sizes of the blocks that are done, of the one that is stopped, and of the others
  have hbefore := (List.forall₂_take_append dims done (task :: rest) hfits.flip).flip
  have hafter := (List.forall₂_drop_append dims done (task :: rest) hfits.flip).flip
  obtain ⟨d, later, hone, -, hdims⟩ := List.forall₂_cons_left_iff.1 hafter
  have hsized := hdone.shapes hrows hbefore
  have hms := (shapes_of_extend hsized).1
  have hlength : ms.length = done.length := hdone.length_eq
  cases hstops with
  | projection hp =>
      simpa [Progress.keep, Progress.extend, hlength] using hms
  | derivative hp hn =>
      have htangent := shape_of_project_eq hone.jacobian hone.coordinates hp
      have hnext : dims.take (done.length + 1) = dims.take done.length ++ [d] := by
        rw [List.take_add, hdims]
        rfl
      simp [Progress.keep, Progress.extend, hlength, ← List.map_take, hnext, htangent,
        ← hms]

/-! ### What the declared sizes are -/

/-- The sizes that a checker declares are counts. -/
structure Declares (c : Checker σ α) (rows : ℕ) (sizes tangentSizes : List ℕ) : Prop where
  numResiduals_eq : c.evaluator.numResiduals = .count rows
  sizes_eq : c.sizes = sizes.map .count
  tangentSizes_eq : c.tangentSizes = tangentSizes.map .count

variable {sizes tangentSizes : List ℕ} {reading : Reading α}

/-- The declared sizes of a block. -/
theorem Declares.space {k : ℕ} (h : c.Declares rows sizes tangentSizes) (hk : k < c.spaces.length)
    (hs : k < sizes.length) (ht : k < tangentSizes.length) :
    c.spaces[k].size = .count sizes[k] ∧ c.spaces[k].tangentSize = .count tangentSizes[k] := by
  have hsize := congrArg (fun l => l[k]?) h.sizes_eq
  have htangent := congrArg (fun l => l[k]?) h.tangentSizes_eq
  simp only [Checker.sizes, Checker.tangentSizes, List.getElem?_map,
    List.getElem?_eq_getElem hk, List.getElem?_eq_getElem hs, List.getElem?_eq_getElem ht,
    Option.map_some, Option.some.injEq] at hsize htangent
  exact ⟨hsize, htangent⟩

theorem Declares.length_eq (h : c.Declares rows sizes tangentSizes) :
    sizes.length = c.spaces.length ∧ tangentSizes.length = c.spaces.length := by
  have hsizes := congrArg List.length h.sizes_eq
  have htangent := congrArg List.length h.tangentSizes_eq
  simp only [Checker.sizes, Checker.tangentSizes, List.length_map] at hsizes htangent
  exact ⟨hsizes.symm, htangent.symm⟩

/-- What is read at the point has the declared shapes. -/
theorem Declares.of_read (h : c.Declares rows sizes tangentSizes)
    (hb : blocks.map List.length = sizes)
    (hread : (c.read blocks).perform machine w = (.ok (some reading), w')) :
    reading.residuals.length = rows ∧
      reading.jacobians.map Tensor.shape = sizes.map fun n => [rows, n] := by
  obtain ⟨answer, jacobians, -, hresiduals, -, hlen, hj⟩ := Checker.of_read hread
  rw [h.numResiduals_eq] at hresiduals hj
  obtain ⟨hl, hone⟩ := Except.mapM_eq_ok_iff_getElem.1 hj
  have hblocks : blocks.length = sizes.length := by rw [← hb, List.length_map]
  rw [h.sizes_eq] at hl hone
  simp only [List.length_zipIdx, List.length_zip, List.length_map, hlen, hblocks,
    Nat.min_self] at hl
  refine ⟨Int.ofNat.inj (length_of_readResiduals hresiduals),
    List.ext_getElem (by simp [hl]) fun k hk hk' => ?_⟩
  have hk₁ : k < reading.jacobians.length := by simpa using hk
  have hmatrix := hone k (by simpa [hlen, hblocks] using hk') hk₁
  simp only [List.getElem_zipIdx, List.getElem_zip, List.getElem_map] at hmatrix
  obtain ⟨m, n, hshape, hm, hn⟩ := shape_of_readMatrix hmatrix
  simp only [List.getElem_map, hshape, Int.ofNat.inj hm, Int.ofNat.inj hn]

/-- So much is known of all blocks before any of them is worked on. -/
theorem Declares.fits (h : c.Declares rows sizes tangentSizes)
    (hb : blocks.map List.length = sizes)
    (hj : reading.jacobians.map Tensor.shape = sizes.map fun n => [rows, n]) :
    List.Forall₂ (Fits blocks rows) (c.tasks blocks reading.jacobians)
      (sizes.zip tangentSizes) := by
  obtain ⟨hsizes, htangent⟩ := h.length_eq
  have hblocks : blocks.length = sizes.length := by rw [← hb, List.length_map]
  have hjacobians : reading.jacobians.length = sizes.length := by
    simpa using congrArg List.length hj
  refine List.forall₂_iff_get.2 ⟨by simp [tasks]; omega, fun k hk hk' => ?_⟩
  obtain ⟨hs, ht⟩ : k < sizes.length ∧ k < tangentSizes.length := by
    simpa [List.length_zip] using hk'
  have hkb : k < blocks.length := hblocks ▸ hs
  have hkj : k < reading.jacobians.length := hjacobians ▸ hs
  obtain ⟨hsize, htangentSize⟩ := h.space (hsizes ▸ hs) hs ht
  have hlength : blocks[k].length = sizes[k] := by
    simpa [hs, hkb] using congrArg (fun l => l[k]?) hb
  have hshape : reading.jacobians[k].shape = [rows, sizes[k]] := by
    simpa [hs, hkj] using congrArg (fun l => l[k]?) hj
  simp only [List.get_eq_getElem, tasks, List.getElem_map, List.getElem_zipIdx,
    List.getElem_zip, Nat.zero_add]
  exact ⟨List.getElem?_eq_getElem hkb, hlength,
    BlockSpace.hasCoordinates hsize htangentSize, hshape⟩

/-- The shapes of the matrices along the entries and along the tangent coordinates. -/
theorem Declares.map_dims (h : c.Declares rows sizes tangentSizes) :
    ((sizes.zip tangentSizes).map fun d => [rows, d.1]) = (sizes.map fun n => [rows, n]) ∧
      ((sizes.zip tangentSizes).map fun d => [rows, d.2]) =
        tangentSizes.map fun n => [rows, n] := by
  obtain ⟨hsizes, htangent⟩ := h.length_eq
  have hfst : (sizes.zip tangentSizes).map Prod.fst = sizes := List.map_fst_zip (by omega)
  have hsnd : (sizes.zip tangentSizes).map Prod.snd = tangentSizes := List.map_snd_zip (by omega)
  constructor
  · conv_rhs => rw [← hfst, List.map_map]
    rfl
  · conv_rhs => rw [← hsnd, List.map_map]
    rfl

/-- A record can be cleared only if the declared sizes are counts. -/
theorem Clears.declares (h : c.Clears) (hrows : c.evaluator.numResiduals = .count rows)
    (before : Record α) :
    ∃ sizes tangentSizes, c.Declares rows sizes tangentSizes ∧
      (before.reset c.evaluator.numResiduals c.sizes c.tangentSizes).2.Sized rows sizes
        tangentSizes := by
  obtain ⟨residuals, ambient, tangent, hresiduals, hambient, htangent, hcleared⟩ :=
    Record.of_reset ((clears_iff before).1 h)
  rw [hrows] at hresiduals hambient htangent
  obtain ⟨sizes, hsizes, ha⟩ := shapes_of_zeroMatrices hambient
  obtain ⟨tangentSizes, htangentSizes, ht⟩ := shapes_of_zeroMatrices htangent
  refine ⟨sizes, tangentSizes, ⟨hrows, hsizes, htangentSizes⟩, ?_⟩
  rw [hcleared]
  refine ⟨?_, ha, ha, ht, ht⟩
  have hextents := shape_of_zeros hresiduals
  match hshape : residuals.shape, hextents with
  | [n], hextents =>
      obtain rfl : rows = n := Int.ofNat.inj (Setting.whole.inj (List.cons.inj hextents).1)
      rfl

/-- What an interrupted probe puts in front of the zero matrices are matrices of the same shapes. -/
theorem sized_interrupted {progress : Progress α} {k : ℕ} {fault : Fault} {before : Record α}
    (hcleared : (before.reset c.evaluator.numResiduals c.sizes c.tangentSizes).2.Sized rows sizes
      tangentSizes)
    (hresiduals : reading.residuals.length = rows)
    (hjacobians : reading.jacobians.map Tensor.shape = sizes.map fun n => [rows, n])
    (htangent : progress.tangent.map Tensor.shape =
      (tangentSizes.map fun n => [rows, n]).take progress.tangent.length) :
    ((Ending.interrupted reading progress k fault).record c.cap c.evaluator.numResiduals c.sizes
      c.tangentSizes before).Sized rows sizes tangentSizes where
  residuals := congrArg (fun n => [n]) hresiduals
  ambient := hjacobians
  numericAmbient := hcleared.numericAmbient
  tangent := by
    show (progress.tangent ++ List.drop _ _).map Tensor.shape = _
    rw [List.map_append, List.map_drop, htangent, hcleared.tangent, List.take_append_drop]
  numericTangent := hcleared.numericTangent

/-- **Shapes in the record.** However a probe ends, with a verdict or with a fault, and whatever the
record held before, it has the declared shapes afterwards. The one exception is a probe that found
out before it called anything that there is no array of a declared shape. -/
theorem record_sized (c : Checker σ α) (machine : Machine) (w : World σ)
    (parameters : List (Supplied α)) (blocks : List (List α)) (tolerance : α) (before : Record α)
    (rows : ℕ) (hrows : c.evaluator.numResiduals = .count rows)
    (ht : Scalar.le Scalar.zero tolerance = true)
    (hb : readBlocks parameters c.sizes = .ok blocks) :
    ∃ verdict record w', (c.probeInto parameters tolerance before).perform machine w =
        (.ok (verdict, record), w') ∧
      ((∃ sizes tangentSizes : List ℕ, c.sizes = sizes.map .count ∧
          c.tangentSizes = tangentSizes.map .count ∧ record.Sized rows sizes tangentSizes) ∨
        ∃ fault, (before.reset c.evaluator.numResiduals c.sizes c.tangentSizes).1 = .error fault ∧
          verdict = .error fault ∧ w' = w) := by
  obtain ⟨ending, w', hrun, hend⟩ := exists_ending machine w ht hb
  refine ⟨_, _, w', perform_probeInto_iff.2 ⟨ending, hrun, rfl, rfl⟩, ?_⟩
  rcases hend with ⟨hclears, hat⟩ | ⟨-, fault, hfault, rfl, rfl⟩
  · left
    obtain ⟨sizes, tangentSizes, hdeclares, hcleared⟩ := hclears.declares hrows before
    refine ⟨sizes, tangentSizes, hdeclares.sizes_eq, hdeclares.tangentSizes_eq, ?_⟩
    have hlengths : blocks.map List.length = sizes := by
      rw [hdeclares.sizes_eq] at hb
      exact lengths_of_readBlocks hb
    obtain ⟨hambient, htangent⟩ := hdeclares.map_dims
    cases ends_of_runAt hat with
    | faulted _ => exact hcleared
    | pointFailed _ => exact ⟨hcleared.residuals, hcleared.ambient, hcleared.numericAmbient,
        hcleared.tangent, hcleared.numericTangent⟩
    | interrupted hread hd =>
        obtain ⟨hresiduals, hjacobians⟩ := hdeclares.of_read hlengths hread
        have hstopped := shapes_of_differentiate_some hrows
          (hdeclares.fits hlengths hjacobians) hd
        exact sized_interrupted hcleared hresiduals hjacobians (htangent ▸ hstopped)
    | incomparable hread hms _ =>
        obtain ⟨hresiduals, hjacobians⟩ := hdeclares.of_read hlengths hread
        obtain ⟨hdone, -, -⟩ := shapes_of_extend
          (hms.shapes hrows (hdeclares.fits hlengths hjacobians))
        rw [htangent] at hdone
        refine sized_interrupted hcleared hresiduals hjacobians ?_
        -- all blocks are done, so no zero matrix is left
        rw [hdone, List.take_of_length_le]
        rw [← hdone, List.length_map]
    | compared hread hms _ =>
        obtain ⟨hresiduals, hjacobians⟩ := hdeclares.of_read hlengths hread
        obtain ⟨hdone, hnumeric, hentries⟩ := shapes_of_extend
          (hms.shapes hrows (hdeclares.fits hlengths hjacobians))
        exact ⟨congrArg (fun n => [n]) hresiduals, hjacobians, (hentries rfl).trans hambient,
          hdone.trans htangent, hnumeric.trans htangent⟩
  · right
    exact ⟨fault, (Record.fst_reset before Record.blank).trans hfault, rfl, rfl⟩

end Checker

theorem record_sized_slanted :
    slantedChecker.evaluator.numResiduals = .count 1 ∧
      Scalar.le Scalar.zero (1e-9 : Float) = true ∧
      readBlocks slantedPoint slantedChecker.sizes = .ok [[1.0, 5.0], [3.0]] ∧
      ∃ verdict record w', (slantedChecker.probeInto slantedPoint 1e-9 Record.blank).perform
          plainMachine ⟨(), [], []⟩ = (.ok (verdict, record), w') ∧
        record.Sized 1 [2, 1] [1, 1] := by
  have ht : Scalar.le Scalar.zero (1e-9 : Float) = true := by decide +kernel
  refine ⟨rfl, ht, rfl, ?_⟩
  obtain ⟨verdict, record, w', h, ⟨sizes, tangentSizes, hs, hts, hsized⟩ | ⟨fault, hfault, -⟩⟩ :=
    slantedChecker.record_sized plainMachine ⟨(), [], []⟩ slantedPoint [[1.0, 5.0], [3.0]] 1e-9
      Record.blank 1 rfl ht rfl
  · have hcount : Function.Injective (List.map Setting.count) :=
      List.map_injective_iff.2 fun m n h => Int.ofNat.inj (Setting.whole.inj h)
    have hsizes : [2, 1].map Setting.count = sizes.map Setting.count := hs
    have htangent : [1, 1].map Setting.count = tangentSizes.map Setting.count := hts
    obtain rfl := hcount hsizes
    obtain rfl := hcount htangent
    exact ⟨verdict, record, w', h, hsized⟩
  · -- there are arrays of all declared shapes
    have hclear : ((Record.blank (α := Float)).reset slantedChecker.evaluator.numResiduals
        slantedChecker.sizes slantedChecker.tangentSizes).1 = .ok () := by decide +kernel
    rw [hclear] at hfault
    cases hfault

end JacobianAudit
