/-
**Callers that answer as they declared.**

A caller's functions may have no value at a point, and may say so. Where they have one it is an
array of the declared size: a vector of residuals, and for each block a matrix, which may be handed
over row by row in one vector. An evaluator that is made of such functions checks what they answer
and passes it on. It never finds anything amiss.

Main definitions:

* `JacobianAudit.Functions.Answers` — functions that answer with nothing or with arrays of the
  declared sizes;
* `JacobianAudit.Evaluator.Responds` — the same of an evaluator.

Main results:

* `JacobianAudit.Supplied.HasMatrix.exists_readMatrix` — a vector of the right length is read as a
  matrix;
* `JacobianAudit.Functions.Answers.responds` — **the evaluator that is made of such functions**
  answers as declared.
-/

import JacobianAudit.Evaluator.Functions
import JacobianAudit.Proofs.Library

set_option autoImplicit false

namespace JacobianAudit

variable {σ α : Type} [Scalar α] {rows : ℕ} {sizes : List ℕ}

/-! ### Arrays of declared sizes -/

namespace Supplied

/-- An array with so many entries. -/
def HasEntries (s : Supplied α) (n : ℕ) : Prop := ∃ xs, s.entries = .ok xs ∧ xs.length = n

/-- A matrix with so many rows and columns, or a vector with as many entries. -/
def HasMatrix (s : Supplied α) (rows cols : ℕ) : Prop :=
  ∃ t, s.read = .ok t ∧ (t.shape = [rows, cols] ∨ t.shape = [rows * cols])

theorem hasEntries_vector (xs : List α) : (vector xs).HasEntries xs.length := ⟨xs, rfl, rfl⟩

theorem HasEntries.exists_readResiduals {s : Supplied α} {n : ℕ} (h : s.HasEntries n) :
    ∃ xs, readResiduals s (.count n) = .ok xs ∧ xs.length = n := by
  obtain ⟨xs, hxs, rfl⟩ := h
  refine ⟨xs, Except.bind_eq_ok_iff.2 ⟨xs, hxs, if_pos ?_⟩, rfl⟩
  rw [Setting.equals_whole, decide_eq_true rfl]

/-- A vector is read as a matrix if there is one of that shape. -/
theorem HasMatrix.exists_readMatrix {s : Supplied α} {cols : ℕ} (h : s.HasMatrix rows cols)
    (hheld : Shape.Held [rows, cols]) (name : String) :
    ∃ t, readMatrix s (.count rows) (.count cols) name = .ok t ∧ t.shape = [rows, cols] := by
  obtain ⟨t, ht, hshape | hflat⟩ := h
  · refine ⟨t, ?_, hshape⟩
    rw [← readMatrix_of_shape hshape name]
    unfold readMatrix
    rw [ht, read_array]
  · have hsize : t.data.length = Shape.size [rows, cols] := by
      rw [t.size_eq, hflat]
      simp
    have hvector : isFlatMatrix t (.count rows) (.count cols) = .ok true := by
      simp [isFlatMatrix, hflat, bind, Except.bind, pure, Except.pure]
    have hshape : Shape.ofSettings [.count rows, .count cols] = .ok [rows, cols] :=
      hheld.ofSettings_eq (show 2 ≤ 64 from by decide)
    refine ⟨t.reshape [rows, cols] hsize, ?_, rfl⟩
    refine Except.bind_eq_ok_iff.2 ⟨t, ht, Except.bind_eq_ok_iff.2 ⟨true, hvector, ?_⟩⟩
    refine Except.bind_eq_ok_iff.2 ⟨_, hshape, ?_⟩
    rw [dif_pos hsize]
    rfl

end Supplied

/-! ### Evaluators -/

/-- The evaluator answers at every point of the declared sizes: with nothing, or with as many
residuals as declared and, when all Jacobians are requested, with a matrix for each block. -/
structure Evaluator.Responds (e : Evaluator σ α) (rows : ℕ) (sizes : List ℕ) : Prop where
  numResiduals_eq : e.numResiduals = .count rows
  blockSizes_eq : e.blockSizes = sizes.map .count
  residuals : ∀ blocks : List (List α), blocks.map List.length = sizes →
    (e.evaluate (blocks.map .vector) none).Promises
      (fun reply => ∀ answer ∈ reply, answer.residuals.HasEntries rows) fun _ => False
  jacobians : ∀ blocks : List (List α), blocks.map List.length = sizes →
    (e.evaluate (blocks.map .vector) (some (blocks.map fun _ => true))).Promises
      (fun reply => ∀ answer ∈ reply, answer.residuals.HasEntries rows ∧
        ∃ js, answer.jacobians = some js ∧ List.Forall₂ (fun j n => j.HasMatrix rows n) js sizes)
      fun _ => False

namespace Functions

/-- Both functions answer at every point of the declared sizes: with nothing, or with arrays of the
declared sizes. -/
structure Answers (f : Functions σ α) (rows : ℕ) (sizes : List ℕ) : Prop where
  numResiduals_eq : f.numResiduals = rows
  blockSizes_eq : f.blockSizes = sizes.map Int.ofNat
  function : ∀ blocks : List (List α), blocks.map List.length = sizes →
    (f.function (blocks.map .vector)).Promises
      (fun values => values = .nothing ∨ values.HasEntries rows) fun _ => False
  jacobian : ∃ g, f.jacobian = some g ∧
    ∀ blocks : List (List α), blocks.map List.length = sizes →
      (g (blocks.map .vector)).Promises
        (fun reply => ∀ js ∈ reply, List.Forall₂ (fun j n => j.HasMatrix rows n) js sizes)
        fun _ => False

variable {f : Functions σ α} {blocks : List (List α)}

/-- Residuals are checked without a fault. -/
theorem Answers.residuals_promises (h : f.Answers rows sizes)
    (hb : blocks.map List.length = sizes) :
    (f.residuals (blocks.map .vector)).Promises
      (fun found => ∀ xs ∈ found, xs.length = rows) fun _ => False := by
  refine (h.function blocks hb).bind fun values hvalues => ?_
  cases hnothing : values.isNothing with
  | true => exact .pure nofun
  | false =>
      have hentries : values.HasEntries rows := by
        rcases hvalues with rfl | hentries
        · cases hnothing
        · exact hentries
      obtain ⟨xs, hread, hlength⟩ := hentries.exists_readResiduals
      have hrows : Setting.whole f.numResiduals = .count rows := congrArg _ h.numResiduals_eq
      rw [← hrows] at hread
      refine .ofExcept_bind hread ?_
      cases xs.all Scalar.isFinite with
      | true =>
          refine .pure fun ys hys => ?_
          rw [← Option.some.inj hys]
          exact hlength
      | false => exact (Action.Promises.warn _).bind fun _ _ => .pure nofun

/-- All Jacobians of a full answer are selected without a fault. -/
theorem Answers.exists_selectJacobians (h : f.Answers rows sizes)
    (hheld : ∀ n ∈ sizes, Shape.Held [rows, n]) {full : List (Supplied α)}
    (hfull : List.Forall₂ (fun j n => j.HasMatrix rows n) full sizes) :
    ∃ js, f.selectJacobians (sizes.map fun _ => true) full = .ok js ∧
      List.Forall₂ (fun j n => j.HasMatrix rows n) js sizes := by
  have hrows : Setting.whole f.numResiduals = .count rows := congrArg _ h.numResiduals_eq
  -- what is requested of each block, beside what was answered for it
  let requested : List (Bool × ℤ) := sizes.map fun n => (true, Int.ofNat n)
  have hrequested : (sizes.map fun _ => true).zip f.blockSizes = requested := by
    rw [h.blockSizes_eq, List.zip_map']
  have hitems : List.Forall₂ (fun q j => ∃ n, q = (true, Int.ofNat n) ∧ Shape.Held [rows, n] ∧
      j.HasMatrix rows n) requested full :=
    List.forall₂_map_left_iff.2
      (((List.forall₂_and_left _ _).2 ⟨hheld, hfull.flip⟩).imp fun n _ hj => ⟨n, rfl, hj⟩)
  have hone : ∀ p ∈ (requested.zip full).zipIdx, ∃ j : Supplied α,
      (if p.1.1.1 then do
        return .array (← readMatrix p.1.2 (.whole f.numResiduals) (.whole p.1.1.2)
          ("jacobian[" ++ toString p.2 ++ "]"))
      else return .nothing) = (.ok j : Except Fault (Supplied α)) ∧
        j.HasMatrix rows p.1.1.2.toNat := by
    rintro ⟨⟨q, j⟩, k⟩ hp
    obtain ⟨n, rfl, hn, hmatrix⟩ := List.forall₂_zip hitems (List.fst_mem_of_mem_zipIdx hp)
    obtain ⟨t, ht, hshape⟩ := hmatrix.exists_readMatrix hn ("jacobian[" ++ toString k ++ "]")
    refine ⟨.array t, ?_, t, rfl, .inl hshape⟩
    rw [hrows]
    exact Except.bind_eq_ok_iff.2 ⟨t, ht, rfl⟩
  obtain ⟨js, hjs, hread⟩ := Except.exists_mapM_eq_ok hone
  refine ⟨js, by unfold selectJacobians; rw [hrequested]; exact hjs, ?_⟩
  have hsizes : ((requested.zip full).zipIdx).map (fun p => p.1.1.2.toNat) = sizes := by
    calc _ = (((requested.zip full).zipIdx.map Prod.fst).map Prod.fst).map
          fun q => q.2.toNat := by rw [List.map_map, List.map_map]; rfl
      _ = requested.map fun q => q.2.toNat := by
          rw [List.zipIdx_map_fst, List.map_fst_zip hitems.length_eq.le]
      _ = sizes := by
          rw [List.map_map]
          exact List.map_id' sizes
  have hmatrices : List.Forall₂ (fun n (j : Supplied α) => j.HasMatrix rows n)
      (((requested.zip full).zipIdx).map fun p => p.1.1.2.toNat) js :=
    List.forall₂_map_left_iff.2 hread
  rw [hsizes] at hmatrices
  exact hmatrices.flip

/-- The Jacobian function's answer is checked without a fault. -/
theorem Answers.jacobians_promises (h : f.Answers rows sizes)
    (hheld : ∀ n ∈ sizes, Shape.Held [rows, n]) (hb : blocks.map List.length = sizes) :
    (f.jacobians (blocks.map .vector) (sizes.map fun _ => true)).Promises
      (fun reply => ∀ js ∈ reply, List.Forall₂ (fun j n => j.HasMatrix rows n) js sizes)
      fun _ => False := by
  obtain ⟨g, hg, hanswers⟩ := h.jacobian
  unfold jacobians
  rw [hg]
  refine (hanswers blocks hb).bind fun reply hreply => ?_
  cases reply with
  | none => exact .pure nofun
  | some full =>
      have hfull := hreply full rfl
      have hlength : full.length = f.blockSizes.length := by
        rw [hfull.length_eq, h.blockSizes_eq, List.length_map]
      obtain ⟨js, hselect, hjs⟩ := h.exists_selectJacobians hheld hfull
      simp only [hlength, if_true]
      refine .ofExcept_bind hselect (.pure fun selected hs => ?_)
      rw [← Option.some.inj hs]
      exact hjs

/-- **An evaluator that is made of such functions answers as declared**, as far as vectors can be
read as matrices. -/
theorem Answers.responds (h : f.Answers rows sizes) (hne : sizes ≠ [])
    (hheld : ∀ n ∈ sizes, Shape.Held [rows, n]) : f.toEvaluator.Responds rows sizes where
  numResiduals_eq := congrArg Setting.whole h.numResiduals_eq
  blockSizes_eq := by
    show f.blockSizes.map Setting.whole = _
    rw [h.blockSizes_eq, List.map_map]
    rfl
  residuals blocks hb := by
    refine (h.residuals_promises hb).bind fun found hfound => ?_
    cases found with
    | none => exact .pure nofun
    | some xs =>
        refine .pure fun answer ha => ?_
        rw [← Option.some.inj ha, ← hfound xs rfl]
        exact Supplied.hasEntries_vector xs
  jacobians blocks hb := by
    refine (h.residuals_promises hb).bind fun found hfound => ?_
    cases found with
    | none => exact .pure nofun
    | some xs =>
        -- there is a block, so some Jacobian is requested
        have hmask : (blocks.map fun _ => true) = sizes.map fun _ => true := by
          rw [← hb, List.map_map]
          rfl
        have hany : (sizes.map fun _ => true).any id = true := by
          obtain ⟨n, rest, rfl⟩ := List.exists_cons_of_ne_nil hne
          rfl
        simp only [hmask, hany, if_true]
        refine Action.Promises.bind (h.jacobians_promises hheld hb) fun reply hreply => ?_
        cases reply with
        | none => exact .pure nofun
        | some js =>
            refine .pure fun answer ha => ?_
            rw [← Option.some.inj ha, ← hfound xs rfl]
            exact ⟨Supplied.hasEntries_vector xs, js, rfl, hfound xs rfl ▸ hreply js rfl⟩

end Functions

end JacobianAudit
