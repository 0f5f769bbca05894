/-
**In whatever shape the numbers come.**

Callers hand over numbers as arrays, and a probe reads each array before it uses it: parameters,
residuals and the points that a manifold leads to as vectors, Jacobians as matrices, which may come
row by row in one vector. So it does not matter which array of the same entries is handed over. Two
callers' functions that differ in this only are no different to a probe: after what they answer has
been read, the very same action is left. Nothing has to be said about the rest of the probe.

Main definitions:

* `JacobianAudit.Supplied.SameEntries`, `JacobianAudit.Supplied.SameMatrix` — two arrays with the
  same entries, and two of which the same matrix is read;
* `JacobianAudit.Action.SameUpTo` — two actions that answer alike and do the same;
* `JacobianAudit.Evaluator.SameValues`, `JacobianAudit.Manifold.SameValues`,
  `JacobianAudit.Functions.SameValues` — callers that differ in the shapes of their answers only;
* `JacobianAudit.Evaluator.flat` — an evaluator that hands over vectors only.

Main results:

* `JacobianAudit.Action.SameUpTo.bind_eq` — what is made of alike answers is the same action;
* `JacobianAudit.estimate_eq_of_sameValues`, `JacobianAudit.project_eq_of_sameValues`,
  `JacobianAudit.Checker.SameValues.read` — numeric Jacobians, projections and readings;
* `JacobianAudit.exists_readMatrix_iff` — which arrays are read as a matrix;
* `JacobianAudit.representation_independent` — **probes of callers with the same values are the
  same**.
-/

import JacobianAudit.Proofs.Agreement
import JacobianAudit.Proofs.Answers
import JacobianAudit.Proofs.Requests
import JacobianAudit.Proofs.Steps
import JacobianAudit.Proofs.Surveys

set_option autoImplicit false

namespace JacobianAudit

variable {σ α β γ : Type}

/-! ### Actions that answer alike -/

namespace Action

/-- From every world the two actions answer alike, and they do the same to it. -/
def SameUpTo (r : β → γ → Prop) (a : Action σ β) (b : Action σ γ) : Prop :=
  ∀ machine w, Alike r (a.perform machine w).1 (b.perform machine w).1 ∧
    (a.perform machine w).2 = (b.perform machine w).2

variable {r : β → γ → Prop} {a : Action σ β} {b : Action σ γ}

theorem SameUpTo.refl {s : β → β → Prop} (h : ∀ x, s x x) (a : Action σ β) : a.SameUpTo s a :=
  fun _ _ => ⟨Alike.rfl.mono fun x _ hxy => hxy ▸ h x, rfl⟩

/-- **What is made of alike answers is the same action**, if nothing that is made of them tells them
apart. -/
theorem SameUpTo.bind_eq {δ : Type} {f : β → Action σ δ} {g : γ → Action σ δ}
    (h : a.SameUpTo r b) (hfg : ∀ x y, r x y → f x = g y) : a >>= f = b >>= g := by
  refine ext_perform fun machine w => ?_
  obtain ⟨halike, hworld⟩ := h machine w
  rw [perform_bind, perform_bind]
  rcases ha : a.perform machine w with ⟨answer, w₁⟩
  rcases hb : b.perform machine w with ⟨answer', w₁'⟩
  rw [ha, hb] at halike hworld
  obtain rfl : w₁ = w₁' := hworld
  cases halike with
  | ok hxy => exact congrArg (fun next : Action σ δ => next.perform machine w₁) (hfg _ _ hxy)
  | error fault => rfl

/-- An action and what it answers in another form. -/
theorem SameUpTo.map {f : β → γ} (h : ∀ machine w x, (a.perform machine w).1 = .ok x → r x (f x)) :
    a.SameUpTo r (f <$> a) := by
  intro machine w
  have hone := h machine w
  rw [map_eq_pure_bind, perform_bind]
  rcases ha : a.perform machine w with ⟨fault | x, w₁⟩
  · exact ⟨.error fault, rfl⟩
  · rw [ha] at hone
    exact ⟨.ok (hone x rfl), rfl⟩

end Action

/-- Questions that have the same answers one by one. -/
theorem mapM_eq_of_forall₂ {δ : Type} {f : β → Except Fault δ} {g : γ → Except Fault δ}
    {xs : List β} {ys : List γ} (h : List.Forall₂ (fun x y => f x = g y) xs ys) :
    xs.mapM f = ys.mapM g := by
  induction h with
  | nil => rfl
  | cons hxy _ ih => rw [List.mapM_cons, List.mapM_cons, hxy, ih]

/-! ### Arrays -/

namespace Supplied

/-- The same, or two arrays with the same entries in row-major order. -/
def SameEntries (s s' : Supplied α) : Prop :=
  s = s' ∨ ∃ t t', s = .array t ∧ s' = .array t' ∧ t.data = t'.data

theorem SameEntries.refl (s : Supplied α) : s.SameEntries s := Or.inl rfl

theorem SameEntries.isNothing_eq {s s' : Supplied α} (h : s.SameEntries s') :
    s.isNothing = s'.isNothing := by
  obtain rfl | ⟨t, t', rfl, rfl, -⟩ := h
  · rfl
  · rfl

variable [Scalar α]

/-- The same, or the same entries as a matrix of a declared shape or row by row in a vector. -/
def SameMatrix (rows cols : Setting) (s s' : Supplied α) : Prop :=
  s = s' ∨ ∃ m n : ℕ, rows = .count m ∧ cols = .count n ∧ Shape.Held [m, n] ∧
    s.HasMatrix m n ∧ s'.HasMatrix m n ∧ s.entries = s'.entries

variable {s s' : Supplied α} {rows cols : Setting}

theorem SameMatrix.refl (rows cols : Setting) (s : Supplied α) : s.SameMatrix rows cols s :=
  Or.inl rfl

theorem SameEntries.entries_eq (h : s.SameEntries s') : s.entries = s'.entries := by
  obtain rfl | ⟨t, t', rfl, rfl, hdata⟩ := h
  · rfl
  · exact congrArg Except.ok hdata

/-- A block is read by its entries. -/
theorem SameEntries.readBlock_eq (h : s.SameEntries s') (k : ℕ) (size : Setting) :
    readBlock k s size = readBlock k s' size := by
  unfold readBlock
  rw [h.entries_eq]

/-- Residuals are read by their entries. -/
theorem SameEntries.readResiduals_eq (h : s.SameEntries s') (declared : Setting) :
    readResiduals s declared = readResiduals s' declared := by
  unfold readResiduals
  rw [h.entries_eq]

/-- Nothing has no shape of a matrix. -/
theorem HasMatrix.exists_array {m n : ℕ} (h : s.HasMatrix m n) : ∃ t, s = .array t := by
  obtain ⟨t, hread, hshape⟩ := h
  cases s with
  | nothing =>
      obtain rfl := Except.ok.inj hread
      rcases hshape with h | h <;> cases h
  | array t => exact ⟨t, rfl⟩
  | unreadable fault => cases hread

/-- **The same matrix is read of a matrix and of the vector of its rows.** -/
theorem SameMatrix.readMatrix_eq (h : s.SameMatrix rows cols s') (name : String) :
    readMatrix s rows cols name = readMatrix s' rows cols name := by
  obtain rfl | ⟨m, n, rfl, rfl, hheld, hs, hs', hentries⟩ := h
  · rfl
  · obtain ⟨t, ht, hshape⟩ := hs.exists_readMatrix hheld name
    obtain ⟨t', ht', hshape'⟩ := hs'.exists_readMatrix hheld name
    have hdata : t.data = t'.data := by
      rw [entries_of_readMatrix ht, entries_of_readMatrix ht'] at hentries
      exact Except.ok.inj hentries
    rw [ht, ht', Tensor.ext_data (hshape.trans hshape'.symm) hdata]

/-- What is not the same is two arrays. -/
theorem SameMatrix.eq_or_arrays (h : s.SameMatrix rows cols s') :
    s = s' ∨ ∃ t t', s = .array t ∧ s' = .array t' := by
  obtain rfl | ⟨m, n, -, -, -, hs, hs', -⟩ := h
  · exact Or.inl rfl
  · obtain ⟨t, rfl⟩ := hs.exists_array
    obtain ⟨t', rfl⟩ := hs'.exists_array
    exact Or.inr ⟨t, t', rfl, rfl⟩

end Supplied

variable [Scalar α]

/-- Parameters are read by their entries, block by block. -/
theorem readBlocks_eq {parameters parameters' : List (Supplied α)}
    (h : List.Forall₂ Supplied.SameEntries parameters parameters') (sizes : List Setting) :
    readBlocks parameters sizes = readBlocks parameters' sizes := by
  unfold readBlocks
  rw [h.length_eq]
  split
  · refine mapM_eq_of_forall₂ ((forall₂_zip_zipIdx h sizes 0).imp fun q q' hq => ?_)
    obtain ⟨hentries, hsize, hk⟩ := hq
    rw [hk, hsize, hentries.readBlock_eq]
  · rfl

/-! ### Callers with the same values -/

/-- Two answers that differ in the shapes of their arrays only. The Jacobians are matrices of the
declared number of residuals and of the blocks' sizes. -/
structure Answer.SameValues (rows : Setting) (sizes : List Setting) (a a' : Answer α) : Prop where
  residuals : a.residuals.SameEntries a'.residuals
  jacobians : Option.Rel (PlaceByPlace fun k j j' => ∀ size ∈ sizes[k]?, ∀ n,
    size.toInt = .ok n → j.SameMatrix rows (.whole n) j') a.jacobians a'.jacobians

/-- Two evaluators of the same sizes whose answers differ in the shapes of their arrays only. -/
structure Evaluator.SameValues (e e' : Evaluator σ α) : Prop where
  blockSizes : e.blockSizes = e'.blockSizes
  numResiduals : e.numResiduals = e'.numResiduals
  evaluate (parameters : List (Supplied α)) (request : Option (List Bool)) :
    (e.evaluate parameters request).SameUpTo
      (Option.Rel (Answer.SameValues e.numResiduals e.blockSizes))
      (e'.evaluate parameters request)

/-- Two manifolds of callers that differ in the shapes of their answers only. -/
structure CustomManifold.SameValues (m m' : CustomManifold σ α) : Prop where
  name : m.name = m'.name
  ambientSize : m.ambientSize = m'.ambientSize
  tangentSize : m.tangentSize = m'.tangentSize
  plus (x delta : Supplied α) :
    (m.plus x delta).SameUpTo Supplied.SameEntries (m'.plus x delta)
  plusJacobian (x : Supplied α) :
    (m.plusJacobian x).SameUpTo (Supplied.SameMatrix m.ambientSize m.tangentSize)
      (m'.plusJacobian x)

/-- The same manifold, or two of callers that differ in the shapes of their answers only. -/
inductive Manifold.SameValues : Manifold σ α → Manifold σ α → Prop
  | refl (m : Manifold σ α) : SameValues m m
  | custom {m m' : CustomManifold σ α} : m.SameValues m' → SameValues (.custom m) (.custom m')

namespace Manifold.SameValues

variable {m m' : Manifold σ α} (h : m.SameValues m')

include h

theorem ambientSize_eq : m.ambientSize = m'.ambientSize := by
  cases h with
  | refl => rfl
  | custom h => exact h.ambientSize

theorem tangentSize_eq : m.tangentSize = m'.tangentSize := by
  cases h with
  | refl => rfl
  | custom h => exact h.tangentSize

theorem shown_eq : m.shown = m'.shown := by
  have hname : m.name = m'.name := by
    cases h with
    | refl => rfl
    | custom h => exact h.name
  unfold shown
  rw [hname, h.ambientSize_eq, h.tangentSize_eq]

theorem plus (x delta : Supplied α) :
    (m.plus x delta).SameUpTo Supplied.SameEntries (m'.plus x delta) := by
  cases h with
  | refl => exact .refl Supplied.SameEntries.refl _
  | custom h => exact h.plus x delta

theorem plusJacobian (x : Supplied α) :
    (m.plusJacobian x).SameUpTo (Supplied.SameMatrix m.ambientSize m.tangentSize)
      (m'.plusJacobian x) := by
  cases h with
  | refl => exact .refl (Supplied.SameMatrix.refl _ _) _
  | custom h => exact h.plusJacobian x

/-- The derivative of the step is read as the same matrix. -/
theorem stepJacobian_eq (point : Supplied α) : stepJacobian m point = stepJacobian m' point := by
  unfold stepJacobian
  refine congrArg (Action.ofExcept point.read >>= ·) (funext fun x => ?_)
  refine (h.plusJacobian (.array x)).bind_eq fun reply reply' hreply => ?_
  have hmatrix : Action.ofExcept (readMatrix reply m.ambientSize m.tangentSize "plus_jacobian") =
      (Action.ofExcept (readMatrix reply' m'.ambientSize m'.tangentSize "plus_jacobian") :
        Action σ (Tensor α)) := by
    rw [hreply.readMatrix_eq, h.ambientSize_eq, h.tangentSize_eq]
  rw [h.shown_eq]
  obtain rfl | ⟨t, t', rfl, rfl⟩ := hreply.eq_or_arrays
  · cases reply with
    | nothing => rfl
    | array t => exact hmatrix
    | unreadable fault => exact hmatrix
  · exact hmatrix

end Manifold.SameValues

/-! ### Differentiating and projecting -/

/-- A projection on either of two manifolds. -/
theorem project_eq_of_sameValues {manifold manifold' : Option (Manifold σ α)}
    (h : Option.Rel Manifold.SameValues manifold manifold') (jacobian point : Supplied α) :
    project jacobian manifold point = project jacobian manifold' point := by
  cases h with
  | none => rfl
  | some h =>
      unfold project
      simp only [h.ambientSize_eq, h.stepJacobian_eq]

namespace Site

variable {site : Site σ α} {e' : Evaluator σ α} {manifold' : Option (Manifold σ α)}

/-- A step on either of two manifolds. -/
theorem moved_eq (e : Evaluator σ α)
    (hm : Option.Rel Manifold.SameValues site.manifold manifold') (i : ℕ) (step : α) :
    site.moved i step = { site with evaluator := e, manifold := manifold' }.moved i step := by
  obtain ⟨_, blocks, index, shown, block, manifold, tangentSize⟩ := site
  unfold moved direction
  simp only at hm ⊢
  cases hm with
  | none => rfl
  | some h =>
      refine (h.plus _ _).bind_eq fun reply reply' hreply => ?_
      obtain rfl | ⟨t, t', rfl, rfl, hdata⟩ := hreply
      · rfl
      · have hentries : (Supplied.array t).entries = (Supplied.array t').entries :=
          congrArg Except.ok hdata
        simp only [hentries]

variable (he : site.evaluator.SameValues e')
  (hm : Option.Rel Manifold.SameValues site.manifold manifold')

include he hm

/-- The residuals after a step. -/
theorem residuals_eq (i : ℕ) (step : α) :
    site.residuals i step =
      { site with evaluator := e', manifold := manifold' }.residuals i step := by
  unfold residuals
  rw [moved_eq e' hm i step]
  refine congrArg (_ >>= ·) (funext fun block => ?_)
  refine (he.evaluate _ none).bind_eq fun answer answer' hanswer => ?_
  cases hanswer with
  | none => rfl
  | some h =>
      simp only
      rw [h.residuals.readResiduals_eq, he.numResiduals]

/-- **A column of the Jacobian** asks for residuals after steps and for nothing else. -/
theorem column_eq (o : DiffOptions α) (base : List α) (i : ℕ) (scale : α) :
    site.column o base i scale =
      { site with evaluator := e', manifold := manifold' }.column o base i scale := by
  unfold column forwardDifference centralDifference
  simp only [residuals_eq he hm]

end Site

section Estimate

variable {e e' : Evaluator σ α} {manifold manifold' : Option (Manifold σ α)}

/-- The tangent coordinates depend on the sizes of a manifold only. -/
theorem tangentScales_eq_of_sameValues (hm : Option.Rel Manifold.SameValues manifold manifold')
    (shown : String) (block : List α) :
    tangentScales shown block manifold = tangentScales shown block manifold' := by
  cases hm with
  | none => rfl
  | some h =>
      unfold tangentScales
      simp only [h.ambientSize_eq, h.tangentSize_eq]

/-- The residuals that forward differences start from. -/
theorem baseResiduals_eq_of_sameValues (he : e.SameValues e') (blocks : List (List α))
    (o : DiffOptions α) (given : Option (Supplied α)) :
    baseResiduals e blocks o given = baseResiduals e' blocks o given := by
  have hpoint : residualsOnly e (blocks.map .vector) = residualsOnly e' (blocks.map .vector) := by
    unfold residualsOnly
    refine (he.evaluate _ none).bind_eq fun answer answer' hanswer => ?_
    cases hanswer with
    | none => rfl
    | some h =>
        simp only
        rw [h.residuals.readResiduals_eq, he.numResiduals]
  unfold baseResiduals
  rw [hpoint, he.numResiduals]

/-- **The numeric Jacobian of a block.** -/
theorem estimate_eq_of_sameValues (he : e.SameValues e')
    (hm : Option.Rel Manifold.SameValues manifold manifold') (parameters : List (Supplied α))
    (index : Setting) (o : DiffOptions α) (base : Option (Supplied α)) :
    estimate e parameters index manifold o base =
      estimate e' parameters index manifold' o base := by
  unfold estimate
  have hcolumn : ∀ (blocks : List (List α)) (k : ℕ) (block : List α) (width : ℕ) (start : List α)
      (q : α × ℕ), (Site.mk e blocks k index.shown block manifold width).column o start q.2 q.1 =
        (Site.mk e' blocks k index.shown block manifold' width).column o start q.2 q.1 := by
    intro blocks k block width start q
    have hsite : (Site.mk e blocks k index.shown block manifold width).evaluator.SameValues e' := he
    exact Site.column_eq hsite hm o start q.2 q.1
  simp only [he.blockSizes, he.numResiduals, tangentScales_eq_of_sameValues hm,
    baseResiduals_eq_of_sameValues he, hcolumn]

end Estimate

/-! ### Checkers -/

/-- Two spaces of one size on manifolds that differ in the shapes of their answers only. -/
structure BlockSpace.SameValues (space space' : BlockSpace σ α) : Prop where
  size : space.size = space'.size
  manifold : Option.Rel Manifold.SameValues space.manifold space'.manifold

/-- The manifolds that callers give for the blocks. -/
def SameManifolds (manifolds manifolds' : Option (List (Option (Manifold σ α)))) : Prop :=
  Option.Rel (List.Forall₂ (Option.Rel Manifold.SameValues)) manifolds manifolds'

namespace BlockSpace

theorem SameValues.tangentSize_eq {space space' : BlockSpace σ α}
    (h : space.SameValues space') : space.tangentSize = space'.tangentSize := by
  obtain ⟨hsize, hmanifold⟩ := h
  unfold tangentSize
  rw [hsize]
  generalize space.manifold = manifold at hmanifold ⊢
  generalize space'.manifold = manifold' at hmanifold ⊢
  cases hmanifold with
  | none => rfl
  | some h => exact h.tangentSize_eq

/-- Manifolds that differ in the shapes of their answers fit the same blocks. -/
theorem fit_alike {manifold manifold' : Option (Manifold σ α)}
    (h : Option.Rel Manifold.SameValues manifold manifold') (k : ℕ) (size : Setting) :
    Alike SameValues (fit k size manifold) (fit k size manifold') := by
  cases h with
  | none => exact .ok ⟨rfl, .none⟩
  | @some m m' h =>
      have hwithin : m'.tangentSize.within (.count 0) m'.ambientSize =
          m.tangentSize.within (.count 0) m.ambientSize := by
        rw [h.ambientSize_eq, h.tangentSize_eq]
      unfold fit
      simp only
      by_cases hambient : m.ambientSize.equals size = true
      · rw [dif_pos hambient, dif_pos (h.ambientSize_eq ▸ hambient)]
        -- both tangent sizes are within the same range
        split <;> rename_i hm <;> split <;> rename_i hm' <;> rw [hwithin, hm] at hm' <;>
          cases hm'
        · exact .ok ⟨rfl, .some h⟩
        · rw [h.ambientSize_eq, h.tangentSize_eq]
          exact .error _
        · exact .error _
      · rw [dif_neg hambient, dif_neg (h.ambientSize_eq ▸ hambient), h.ambientSize_eq]
        exact .error _

/-- So do all of them together. -/
theorem fitAll_alike {manifolds manifolds' : Option (List (Option (Manifold σ α)))}
    (h : SameManifolds manifolds manifolds') (sizes : List Setting) :
    Alike (List.Forall₂ SameValues) (fitAll manifolds sizes) (fitAll manifolds' sizes) := by
  cases h with
  | none =>
      refine .ok ?_
      rw [List.forall₂_map_left_iff, List.forall₂_map_right_iff, List.forall₂_same]
      exact fun _ _ => ⟨rfl, .none⟩
  | some h =>
      unfold fitAll
      simp only [h.length_eq]
      split
      · refine .mapM ((forall₂_zip_zipIdx h sizes 0).imp fun q q' hq => ?_)
        obtain ⟨hmanifold, hsize, hk⟩ := hq
        rw [← hsize, ← hk]
        exact fit_alike hmanifold q.2 q.1.2
      · exact .error _

end BlockSpace

namespace Checker

/-- Two checkers of callers that differ in the shapes of their answers only. The evaluator declares
the sizes of the blocks, in whatever form. -/
structure SameValues (c c' : Checker σ α) : Prop where
  evaluator : c.evaluator.SameValues c'.evaluator
  spaces : List.Forall₂ BlockSpace.SameValues c.spaces c'.spaces
  options : c.options = c'.options
  cap : c.cap = c'.cap
  declared : ∀ (k : ℕ) (size : Setting), c.sizes[k]? = some size →
    ∃ (s : Setting) (n : ℤ), c.evaluator.blockSizes[k]? = some s ∧ s.toInt = .ok n ∧
      size = .whole n

/-- What callers hand over is accepted alike, and for the same reason refused. -/
theorem make_alike {e e' : Evaluator σ α}
    {manifolds manifolds' : Option (List (Option (Manifold σ α)))}
    (he : e.SameValues e') (hm : SameManifolds manifolds manifolds') (options : DiffOptions α)
    (cap : Setting) :
    Alike SameValues (make e manifolds options cap) (make e' manifolds' options cap) := by
  unfold make
  rw [← he.blockSizes]
  cases hsizes : readSizes e.blockSizes with
  | error fault => exact .error fault
  | ok sizes =>
      have hfit := BlockSpace.fitAll_alike hm (sizes.map Setting.whole)
      show Alike SameValues (BlockSpace.fitAll _ _ >>= _) (BlockSpace.fitAll _ _ >>= _)
      refine (hfit.and (P := fun spaces => spaces.map (·.size) = sizes.map Setting.whole)
        (Q := fun _ => True) (fun spaces h => (BlockSpace.of_fitAll h).1)
        fun _ _ => trivial).bind fun spaces spaces' h => ?_
      refine .bind_same fun n => .ok ⟨he, h.1, rfl, rfl, fun k size hk => ?_⟩
      have hk' : (sizes.map Setting.whole)[k]? = some size := h.2.1 ▸ hk
      rw [List.getElem?_map, Option.map_eq_some_iff] at hk'
      obtain ⟨n, hn, rfl⟩ := hk'
      obtain ⟨s, hs, htoInt⟩ := toInt_of_readSizes hsizes hn
      exact ⟨s, n, hs, htoInt, rfl⟩

namespace SameValues

variable {c c' : Checker σ α} (h : c.SameValues c')

include h

theorem sizes_eq : c.sizes = c'.sizes := by
  unfold sizes
  rw [← List.forall₂_eq_eq_eq, List.forall₂_map_left_iff, List.forall₂_map_right_iff]
  exact h.spaces.imp fun _ _ hspace => hspace.size

theorem tangentSizes_eq : c.tangentSizes = c'.tangentSizes := by
  unfold tangentSizes
  rw [← List.forall₂_eq_eq_eq, List.forall₂_map_left_iff, List.forall₂_map_right_iff]
  exact h.spaces.imp fun _ _ hspace => hspace.tangentSize_eq

/-- **The same is read at the point.** -/
theorem read (blocks : List (List α)) : c.read blocks = c'.read blocks := by
  unfold Checker.read
  refine (h.evaluator.evaluate _ _).bind_eq fun answer answer' hanswer => ?_
  cases hanswer with
  | none => rfl
  | @some answer answer' hanswer =>
      obtain ⟨residuals, jacobians⟩ := answer
      obtain ⟨residuals', jacobians'⟩ := answer'
      obtain ⟨hresiduals, hjacobians⟩ := hanswer
      simp only at hresiduals hjacobians ⊢
      rw [hresiduals.readResiduals_eq, ← h.evaluator.numResiduals, ← h.sizes_eq]
      refine congrArg (_ >>= ·) (funext fun found => ?_)
      cases hjacobians with
      | none => rfl
      | @some jacobians jacobians' hj =>
          simp only [hj.length_eq]
          split
          · have hmatrices : ((jacobians.zip c.sizes).zipIdx.mapM fun q => readMatrix q.1.1
                c.evaluator.numResiduals q.1.2 ("Jacobian of block " ++ toString q.2)) =
                (jacobians'.zip c.sizes).zipIdx.mapM fun q => readMatrix q.1.1
                  c.evaluator.numResiduals q.1.2 ("Jacobian of block " ++ toString q.2) := by
              refine mapM_eq_of_forall₂ (PlaceByPlace.iff_forall₂.1
                ⟨by simp [hj.length_eq], fun k q q' hq hq' => ?_⟩)
              simp only [List.getElem?_zipIdx, Nat.zero_add, Option.map_eq_some_iff] at hq hq'
              obtain ⟨⟨j, size⟩, hjs, rfl⟩ := hq
              obtain ⟨⟨j', size'⟩, hjs', rfl⟩ := hq'
              obtain ⟨hjk, hsize⟩ := List.getElem?_zip_eq_some.1 hjs
              obtain ⟨hjk', hsize'⟩ := List.getElem?_zip_eq_some.1 hjs'
              obtain rfl := Option.some.inj (hsize.symm.trans hsize')
              obtain ⟨s, n, hs, htoInt, rfl⟩ := h.declared k _ hsize
              exact (hj.item k j j' hjk hjk' s hs n htoInt).readMatrix_eq _
            rw [hmatrices]
          · rfl

/-- The numeric Jacobians of a block. -/
theorem numeric {space space' : BlockSpace σ α} (hspace : space.SameValues space')
    (blocks : List (List α)) (residuals : List α) (recording : Bool) (k : ℕ) :
    c.numeric blocks residuals recording k space =
      c'.numeric blocks residuals recording k space' := by
  have hplain : ∀ parameters index o base, estimate c.evaluator parameters index none o base =
      estimate c'.evaluator parameters index none o base :=
    estimate_eq_of_sameValues h.evaluator .none
  unfold Checker.numeric
  simp only [estimate_eq_of_sameValues h.evaluator hspace.manifold, h.options, hplain]
  refine congrArg (_ >>= ·) (funext fun tangent => ?_)
  have hmanifold := hspace.manifold
  generalize space.manifold = manifold at hmanifold ⊢
  generalize space'.manifold = manifold' at hmanifold ⊢
  cases hmanifold with
  | none => rfl
  | some _ => rfl

/-- The loop over the blocks. Induction on the tasks. -/
theorem differentiate {todo todo' : List (ℕ × BlockSpace σ α × List α × Tensor α)}
    (htodo : List.Forall₂ (fun task task' => task.1 = task'.1 ∧
      task.2.1.SameValues task'.2.1 ∧ task.2.2 = task'.2.2) todo todo') (blocks : List (List α))
    (reading : Reading α) (recording : Bool) (progress : Progress α) :
    c.differentiate blocks reading recording todo progress =
      c'.differentiate blocks reading recording todo' progress := by
  induction htodo generalizing progress with
  | nil => rfl
  | @cons task task' rest rest' htask _ ih =>
      obtain ⟨k, space, block, jacobian⟩ := task
      obtain ⟨k', space', block', jacobian'⟩ := task'
      obtain ⟨hk, hspace, hrest⟩ := htask
      simp only [Prod.mk.injEq] at hk hrest
      obtain ⟨rfl, rfl⟩ := hrest
      subst hk
      rw [Checker.differentiate, Checker.differentiate, project_eq_of_sameValues hspace.manifold]
      simp only [h.numeric hspace, ih]

/-- **The same probe at a point.** -/
theorem runAt (blocks : List (List α)) (tolerance : α) (recording : Bool) :
    c.runAt blocks tolerance recording = c'.runAt blocks tolerance recording := by
  have htasks : ∀ jacobians : List (Tensor α),
      List.Forall₂ (fun task task' => task.1 = task'.1 ∧
        task.2.1.SameValues task'.2.1 ∧ task.2.2 = task'.2.2)
        (c.tasks blocks jacobians) (c'.tasks blocks jacobians) := by
    intro jacobians
    unfold tasks
    rw [List.forall₂_map_left_iff, List.forall₂_map_right_iff]
    refine (forall₂_zip_zipIdx h.spaces (blocks.zip jacobians) 0).imp fun q q' hq => ?_
    exact ⟨hq.2.2, hq.1, Prod.ext (congrArg Prod.fst hq.2.1) (congrArg Prod.snd hq.2.1)⟩
  unfold Checker.runAt
  rw [h.read]
  refine congrArg (_ >>= ·) (funext fun found => ?_)
  rcases found with fault | _ | reading
  · rfl
  · rfl
  · have hloop := h.differentiate (htasks reading.jacobians) blocks reading recording {}
    exact congrArg (· >>= _) hloop

/-- **The same probe**, if the parameters have the same entries. -/
theorem run {parameters parameters' : List (Supplied α)}
    (hp : List.Forall₂ Supplied.SameEntries parameters parameters') (tolerance : α)
    (recording : Bool) :
    c.run parameters tolerance recording = c'.run parameters' tolerance recording := by
  unfold Checker.run
  rw [readBlocks_eq hp, h.sizes_eq, h.tangentSizes_eq, h.evaluator.numResiduals]
  simp only [h.runAt]

theorem probe {parameters parameters' : List (Supplied α)}
    (hp : List.Forall₂ Supplied.SameEntries parameters parameters') (tolerance : α) :
    c.probe parameters tolerance = c'.probe parameters' tolerance := by
  unfold Checker.probe
  rw [h.run hp]

theorem probeInto {parameters parameters' : List (Supplied α)}
    (hp : List.Forall₂ Supplied.SameEntries parameters parameters') (tolerance : α)
    (before : Record α) :
    c.probeInto parameters tolerance before = c'.probeInto parameters' tolerance before := by
  unfold Checker.probeInto
  rw [h.run hp, h.cap, h.evaluator.numResiduals, h.sizes_eq, h.tangentSizes_eq]

end SameValues

end Checker

/-! ### Evaluators from functions -/

namespace Functions

/-- Functions of the same sizes whose answers differ in the shapes of their arrays only. -/
structure SameValues (f f' : Functions σ α) : Prop where
  blockSizes : f.blockSizes = f'.blockSizes
  numResiduals : f.numResiduals = f'.numResiduals
  function (parameters : List (Supplied α)) :
    (f.function parameters).SameUpTo Supplied.SameEntries (f'.function parameters)
  jacobian : Option.Rel (fun g g' => ∀ parameters, (g parameters).SameUpTo
    (Option.Rel (PlaceByPlace fun k j j' => ∀ n ∈ f.blockSizes[k]?,
      j.SameMatrix (.whole f.numResiduals) (.whole n) j')) (g' parameters)) f.jacobian f'.jacobian

namespace SameValues

variable {f f' : Functions σ α} (h : f.SameValues f')

include h

theorem residuals_eq (parameters : List (Supplied α)) :
    f.residuals parameters = f'.residuals parameters := by
  refine (h.function parameters).bind_eq fun values values' hvalues => ?_
  rw [hvalues.isNothing_eq, hvalues.readResiduals_eq, h.numResiduals]

/-- The same Jacobians are selected. -/
theorem selectJacobians_eq {full full' : List (Supplied α)}
    (hfull : PlaceByPlace (fun k j j' => ∀ n ∈ f.blockSizes[k]?,
      j.SameMatrix (.whole f.numResiduals) (.whole n) j') full full') (mask : List Bool) :
    f.selectJacobians mask full = f'.selectJacobians mask full' := by
  unfold selectJacobians
  rw [← h.blockSizes, ← h.numResiduals]
  refine mapM_eq_of_forall₂ (PlaceByPlace.iff_forall₂.1
    ⟨by simp [hfull.length_eq], fun k q q' hq hq' => ?_⟩)
  simp only [List.getElem?_zipIdx, Nat.zero_add, Option.map_eq_some_iff] at hq hq'
  obtain ⟨⟨⟨wanted, n⟩, j⟩, hjs, rfl⟩ := hq
  obtain ⟨⟨p, j'⟩, hjs', rfl⟩ := hq'
  obtain ⟨hp, hj⟩ := List.getElem?_zip_eq_some.1 hjs
  obtain ⟨hp', hj'⟩ := List.getElem?_zip_eq_some.1 hjs'
  obtain rfl := Option.some.inj (hp.symm.trans hp')
  have hn : f.blockSizes[k]? = some n := (List.getElem?_zip_eq_some.1 hp).2
  simp only [(hfull.item k j j' hj hj' n hn).readMatrix_eq]

theorem jacobians_eq (parameters : List (Supplied α)) (mask : List Bool) :
    f.jacobians parameters mask = f'.jacobians parameters mask := by
  have hjacobian := h.jacobian
  unfold jacobians
  generalize f.jacobian = g at hjacobian ⊢
  generalize f'.jacobian = g' at hjacobian ⊢
  cases hjacobian with
  | none => rfl
  | some hg =>
      refine (hg parameters).bind_eq fun full full' hfull => ?_
      cases hfull with
      | none => rfl
      | some hfull =>
          simp only [hfull.length_eq, h.blockSizes, h.selectJacobians_eq hfull]

/-- **The functions answer every request alike**: what they hand over is read before it is passed
on. -/
theorem toEvaluator_eq : f.toEvaluator = f'.toEvaluator := by
  have hevaluate : f.evaluate = f'.evaluate := by
    funext parameters request
    unfold evaluate
    rw [h.residuals_eq]
    simp only [h.jacobians_eq]
  unfold toEvaluator
  rw [h.blockSizes, h.numResiduals, hevaluate]

end SameValues

end Functions

/-! ### Vectors only -/

/-- The entries of an array as a vector. -/
def Supplied.flat : Supplied α → Supplied α
  | array t => .vector t.data
  | s => s

/-- The same answer in vectors. -/
def Answer.flat (answer : Answer α) : Answer α :=
  ⟨answer.residuals.flat, answer.jacobians.map (List.map Supplied.flat)⟩

/-- An evaluator that gives the same answers in vectors. -/
def Evaluator.flat (e : Evaluator σ α) : Evaluator σ α where
  blockSizes := e.blockSizes
  numResiduals := e.numResiduals
  evaluate parameters request := Option.map Answer.flat <$> e.evaluate parameters request

omit [Scalar α] in
theorem Supplied.sameEntries_flat (s : Supplied α) : s.SameEntries s.flat := by
  cases s with
  | array t => exact Or.inr ⟨t, _, rfl, rfl, rfl⟩
  | _ => exact .refl _

/-- A matrix and the vector of its rows. -/
theorem Supplied.sameMatrix_flat {t : Tensor α} {m n : ℕ} (ht : t.shape = [m, n])
    (hheld : Shape.Held [m, n]) :
    (array t).SameMatrix (.count m) (.count n) (array t).flat := by
  have hlength : t.data.length = m * n := by
    rw [t.size_eq, ht]
    simp
  exact Or.inr ⟨m, n, rfl, rfl, hheld, ⟨t, rfl, Or.inl ht⟩,
    ⟨.vector t.data, rfl, Or.inr (congrArg (fun k => [k]) hlength)⟩, rfl⟩

/-- **It is all the same whether an evaluator that is made of functions answers in matrices or in
vectors.** -/
theorem Functions.sameValues_flat (f : Functions σ α)
    (hheld : ∀ n ∈ f.blockSizes, Shape.Held [f.numResiduals.toNat, n.toNat]) :
    f.toEvaluator.SameValues f.toEvaluator.flat where
  blockSizes := rfl
  numResiduals := rfl
  evaluate parameters request := by
    refine .map fun machine w found hfound => ?_
    cases found with
    | none => exact .none
    | some answer =>
        refine .some ⟨answer.residuals.sameEntries_flat, ?_⟩
        obtain ⟨xs, -, -, hnone⟩ := residuals_of_evaluate hfound
        by_cases hasks : Asks request
        · obtain ⟨mask, rfl, hmask⟩ := hasks
          obtain ⟨_, full, js, -, -, hselect, -, rfl⟩ := of_evaluate_some hmask hfound
          refine .some ⟨(List.length_map _).symm, fun k j j' hj hj' size hsize n hn => ?_⟩
          obtain ⟨hk, rfl⟩ := List.getElem?_eq_some_iff.1 hj
          rw [List.getElem?_map, hj, Option.map_some] at hj'
          obtain rfl := Option.some.inj hj'
          have hl := (Except.mapM_eq_ok_iff_getElem.1 hselect).1
          simp only [List.length_zipIdx, List.length_zip] at hl
          have hs : k < f.blockSizes.length := by omega
          obtain rfl : size = .whole f.blockSizes[k] := by
            rw [Option.mem_def, show f.toEvaluator.blockSizes = f.blockSizes.map Setting.whole
              from rfl, List.getElem?_map, List.getElem?_eq_getElem hs] at hsize
            exact (Option.some.inj hsize).symm
          obtain rfl : f.blockSizes[k] = n := Except.ok.inj hn
          have hone := getElem_select hselect k (by omega) hs (by omega) hk
          split at hone
          · obtain ⟨t, ht, hread⟩ := hone
            obtain ⟨rows, cols, hshape, hrows, hcols⟩ := shape_of_readMatrix hread
            have hshapes := hheld _ (List.getElem_mem hs)
            rw [hrows, hcols, Int.toNat_natCast, Int.toNat_natCast] at hshapes
            show Supplied.SameMatrix (.whole f.numResiduals) _ _ _
            rw [ht, hrows, hcols]
            exact Supplied.sameMatrix_flat hshape hshapes
          · rw [hone]
            exact .refl _ _ _
        · show Option.Rel _ answer.jacobians (answer.jacobians.map (List.map Supplied.flat))
          rw [hnone.2 hasks]
          exact .none

/-! ### Reading a matrix -/

/-- Where there is a vector there is a matrix of as many entries, unless an extent cannot be
addressed. -/
theorem Shape.Held.of_flat {rows cols : ℕ} (h : Held [rows * cols]) (hrows : rows < capacity)
    (hcols : cols < capacity) : Held [rows, cols] := by
  obtain ⟨hfits, hmemory⟩ := held_iff.1 h
  refine held_iff.2 ⟨?_, by simpa using hmemory⟩
  simp only [fits, List.foldr_cons, List.foldr_nil, Nat.mul_one, decide_eq_true_eq] at hfits ⊢
  have hc : capacity = 1152921504606846976 := rfl
  rcases Nat.eq_zero_or_pos rows with rfl | hr
  · simp only [Nat.zero_max, Nat.one_mul]
    omega
  · rcases Nat.eq_zero_or_pos cols with rfl | hl
    · simp only [Nat.zero_max, Nat.mul_one]
      omega
    · rw [max_eq_left hr, max_eq_left hl]
      exact (le_max_left _ _).trans_lt hfits

/-- **An array is read as a matrix** if it is one of the declared shape, or a vector of as many
entries. -/
theorem exists_readMatrix_iff {t : Tensor α} (ht : t.shape.Held) {rows cols : ℕ}
    (hrows : rows < Shape.capacity) (hcols : cols < Shape.capacity) (name : String) :
    (∃ t', readMatrix (.array t) (.count rows) (.count cols) name = .ok t') ↔
      t.shape = [rows, cols] ∨ t.shape = [rows * cols] := by
  constructor
  · rintro ⟨t', h⟩
    obtain ⟨_, hread, h⟩ := Except.bind_eq_ok_iff.1 h
    obtain rfl := Except.ok.inj hread
    obtain ⟨flat, hflat, h⟩ := Except.bind_eq_ok_iff.1 h
    cases flat with
    | true =>
        unfold isFlatMatrix at hflat
        split at hflat
        · rename_i n hshape
          have hn : decide (((rows : ℤ) * cols) = n) = true := by
            simpa [bind, Except.bind, pure, Except.pure] using hflat
          refine Or.inr (hshape.trans (congrArg (fun k => [k]) ?_))
          exact_mod_cast (of_decide_eq_true hn).symm
        · cases hflat
    | false =>
        simp only [Bool.false_eq_true, if_false] at h
        split at h
        · rename_i hmatrix
          unfold isMatrix at hmatrix
          split at hmatrix
          · rename_i m n hshape
            simp only [Setting.equals_whole, Bool.and_eq_true, decide_eq_true_eq,
              Int.natCast_inj] at hmatrix
            exact Or.inl (by rw [hshape, hmatrix.1, hmatrix.2])
          · cases hmatrix
        · cases h
  · rintro (hshape | hflat)
    · exact ⟨t, readMatrix_of_shape hshape name⟩
    · have hheld : Shape.Held [rows, cols] := (hflat ▸ ht).of_flat hrows hcols
      have hmatrix : (Supplied.array t).HasMatrix rows cols := ⟨t, rfl, Or.inr hflat⟩
      obtain ⟨t', hread, -⟩ := hmatrix.exists_readMatrix hheld name
      exact ⟨t', hread⟩

/-- What is read is the matrix whose rows follow each other in the array. -/
theorem getElem_of_readMatrix {t t' : Tensor α} {rows cols : ℕ} {name : String}
    (h : readMatrix (.array t) (.count rows) (.count cols) name = .ok t') :
    t'.shape = [rows, cols] ∧ ∀ i < rows, ∀ j < cols,
      ∃ hl : i * cols + j < t.data.length, t'.get [i, j] = t.data[i * cols + j] := by
  obtain ⟨m, n, hshape, hm, hn⟩ := shape_of_readMatrix h
  obtain ⟨rfl, rfl⟩ : rows = m ∧ cols = n := ⟨Int.ofNat.inj hm, Int.ofNat.inj hn⟩
  have hdata : t.data = t'.data := Except.ok.inj (entries_of_readMatrix h)
  refine ⟨hshape, fun i hi j hj => ?_⟩
  have hl : i * cols + j < t'.data.length := by
    rw [t'.size_eq, hshape]
    simpa using row_col_lt hi hj
  refine ⟨hdata ▸ hl, ?_⟩
  rw [get_of_lt hshape hl]
  simp only [hdata]

/-! ### All representations -/

/-- **Probes of callers with the same values are the same**: they are refused for the same reason
or they answer the same, leave the same record and do the same. So are evaluators from functions
with the same values. An array is read as a matrix if it is one of the declared shape or a vector of
as many entries, whose rows follow each other. -/
theorem representation_independent :
    (∀ (e e' : Evaluator σ α) (manifolds manifolds' : Option (List (Option (Manifold σ α))))
      (parameters parameters' : List (Supplied α)) (options : DiffOptions α) (cap : Setting)
      (tolerance : α) (before : Record α), e.SameValues e' → SameManifolds manifolds manifolds' →
      List.Forall₂ Supplied.SameEntries parameters parameters' →
      ((Checker.make e manifolds options cap).map fun c =>
          (c.probe parameters tolerance, c.probeInto parameters tolerance before)) =
        ((Checker.make e' manifolds' options cap).map fun c =>
          (c.probe parameters' tolerance, c.probeInto parameters' tolerance before)) ∧
      probe e manifolds parameters tolerance options =
        probe e' manifolds' parameters' tolerance options ∧
      probeInto e manifolds parameters tolerance options before =
        probeInto e' manifolds' parameters' tolerance options before) ∧
    (∀ f f' : Functions σ α, f.SameValues f' → f.toEvaluator = f'.toEvaluator) ∧
    (∀ (t : Tensor α) (rows cols : ℕ) (name : String), t.shape.Held → rows < Shape.capacity →
      cols < Shape.capacity →
      ((∃ t', readMatrix (.array t) (.count rows) (.count cols) name = .ok t') ↔
        t.shape = [rows, cols] ∨ t.shape = [rows * cols])) ∧
    (∀ (t t' : Tensor α) (rows cols : ℕ) (name : String),
      readMatrix (.array t) (.count rows) (.count cols) name = .ok t' →
      t'.shape = [rows, cols] ∧ ∀ i < rows, ∀ j < cols,
        ∃ hl : i * cols + j < t.data.length, t'.get [i, j] = t.data[i * cols + j]) := by
  refine ⟨?_, fun f f' h => h.toEvaluator_eq, fun t rows cols name ht hrows hcols =>
    exists_readMatrix_iff ht hrows hcols name, fun t t' rows cols name h =>
    getElem_of_readMatrix h⟩
  intro e e' manifolds manifolds' parameters parameters' options cap tolerance before he hm hp
  refine ⟨?_, ?_⟩
  · refine ((Checker.make_alike he hm options cap).map fun c c' h => ?_).eq
    exact Prod.ext (h.probe hp tolerance) (h.probeInto hp tolerance before)
  · have hmake := Checker.make_alike he hm options (.whole defaultCap)
    unfold probe probeInto
    generalize Checker.make e manifolds options (.whole defaultCap) = made at hmake ⊢
    generalize Checker.make e' manifolds' options (.whole defaultCap) = made' at hmake ⊢
    cases hmake with
    | error fault => exact ⟨rfl, rfl⟩
    | ok h => exact ⟨h.probe hp tolerance, h.probeInto hp tolerance before⟩

/-- The point `x = (1, 5)`, `y = 3`, as a column and a number on its own. -/
def slantedColumns : List (Supplied Float) :=
  [.array ⟨[2, 1], [1.0, 5.0], rfl⟩, .array (.scalar 3.0)]

/-- The functions whose Jacobian is wrong along `x₁`, which they hand over as matrices. -/
def slantedRows : Functions Unit Float where
  function := slanted.function
  jacobian := some fun _ =>
    pure (some [.array ⟨[1, 2], [2.0, 7.0], rfl⟩, .array ⟨[1, 1], [1.0], rfl⟩])
  blockSizes := [2, 1]
  numResiduals := 1

theorem slanted_sameValues_rows : slanted.SameValues slantedRows where
  blockSizes := rfl
  numResiduals := rfl
  function parameters := .refl Supplied.SameEntries.refl _
  jacobian := by
    refine .some fun parameters machine w => ⟨.ok (.some ?_), rfl⟩
    refine .cons (fun n hn => ?_) (.cons (fun n hn => ?_) .nil)
    · obtain rfl := Option.some.inj hn
      exact Or.inr ⟨1, 2, rfl, rfl, by decide, ⟨_, rfl, Or.inr rfl⟩, ⟨_, rfl, Or.inl rfl⟩, rfl⟩
    · obtain rfl := Option.some.inj hn
      exact Or.inr ⟨1, 1, rfl, rfl, by decide, ⟨_, rfl, Or.inr rfl⟩, ⟨_, rfl, Or.inl rfl⟩, rfl⟩

/-- With `x₁` held constant, the check passes in whatever shapes the numbers come. -/
theorem representation_independent_slanted :
    slanted.toEvaluator.SameValues slanted.toEvaluator.flat ∧ slanted.SameValues slantedRows ∧
      List.Forall₂ Supplied.SameEntries slantedPoint slantedColumns ∧
      probe slanted.toEvaluator (some [some (.subset secondConstant), none]) slantedPoint 1e-9
          DiffOptions.standard =
        probe slanted.toEvaluator.flat (some [some (.subset secondConstant), none]) slantedColumns
          1e-9 DiffOptions.standard ∧
      ((probe slanted.toEvaluator (some [some (.subset secondConstant), none]) slantedPoint 1e-9
        DiffOptions.standard).perform plainMachine ⟨(), [], []⟩).1 = .ok true ∧
      slanted.toEvaluator = slantedRows.toEvaluator ∧
      (∃ t', readMatrix (.vector [2.0, 7.0] : Supplied Float) (.count 1) (.count 2) "jacobian" =
        .ok t' ∧ t'.shape = [1, 2]) := by
  have hevaluator : slanted.toEvaluator.SameValues slanted.toEvaluator.flat :=
    slanted.sameValues_flat (by decide)
  have hmanifolds : SameManifolds (some [some (.subset secondConstant), none])
      (some [some (Manifold.subset secondConstant : Manifold Unit Float), none]) :=
    .some (.cons (.some (.refl _)) (.cons .none .nil))
  have hpoint : List.Forall₂ Supplied.SameEntries slantedPoint slantedColumns :=
    .cons (Or.inr ⟨_, _, rfl, rfl, rfl⟩) (.cons (Or.inr ⟨_, _, rfl, rfl, rfl⟩) .nil)
  obtain ⟨hprobes, hfunctions, haccepted, hread⟩ :=
    representation_independent (σ := Unit) (α := Float)
  obtain ⟨t', ht'⟩ := (haccepted (.vector [2.0, 7.0]) 1 2 "jacobian" (by decide) (by decide)
    (by decide)).2 (Or.inr rfl)
  exact ⟨hevaluator, slanted_sameValues_rows, hpoint,
    (hprobes _ _ _ _ _ _ DiffOptions.standard (.whole defaultCap) 1e-9 Record.blank hevaluator
      hmanifolds hpoint).2.1, by decide +kernel, hfunctions _ _ slanted_sameValues_rows, t', ht',
    (hread _ t' 1 2 "jacobian" ht').1⟩

/-- A vector without entries is no matrix without rows if so many columns cannot be addressed. -/
theorem vacant_vector_refused :
    ¬((∃ t', readMatrix (.vector ([] : List Float)) (.count 0) (.count 1152921504606846976)
        "jacobian" = .ok t') ↔
      (Tensor.vector ([] : List Float)).shape = [0, 1152921504606846976] ∨
        (Tensor.vector ([] : List Float)).shape = [0 * 1152921504606846976]) := by
  intro h
  obtain ⟨t', ht'⟩ := h.2 (Or.inr rfl)
  have hrefused : readMatrix (.vector ([] : List Float)) (.count 0) (.count 1152921504606846976)
      "jacobian" = .error (.malformed .tooLarge) := by
    have hshape : Shape.ofSettings [.count 0, .count 1152921504606846976] =
        .error (.malformed .tooLarge) := by decide +kernel
    have hflat : isFlatMatrix (Tensor.vector ([] : List Float)) (.count 0)
        (.count 1152921504606846976) = .ok true := by
      simp [isFlatMatrix, bind, Except.bind, pure, Except.pure]
    refine Except.bind_eq_error_iff.2 (Or.inr ⟨_, rfl, ?_⟩)
    refine Except.bind_eq_error_iff.2 (Or.inr ⟨true, hflat, ?_⟩)
    exact Except.bind_eq_error_iff.2 (Or.inl hshape)
  rw [hrefused] at ht'
  cases ht'

end JacobianAudit
