/-
**What escapes a probe.**

A probe is meant to answer yes or no wherever the callers keep their promises: the evaluator's
functions answer with nothing or with arrays of the declared sizes, and the manifolds are the
library's own. All that can go wrong at a point is then part of the answer. The settings are the
exception. They are accepted although a power of the shrink factor may be too large for a number,
or although there may be no end to the number of workers, and then a probe does not answer.

Main definitions:

* `JacobianAudit.Checker.Answered` — all callers of a probe keep their promises;
* `JacobianAudit.Spacious` — there are the arrays that a probe makes.

Main results:

* `JacobianAudit.Binary64.eq_overflow_of_power` — the powers of a number above one are numbers
  unless they are too large;
* `JacobianAudit.Checker.Answered.verdict_of_ends` — only the settings keep a probe from answering;
* `JacobianAudit.Checker.only_overflow_escapes` — **a probe answers yes or no unless a setting is
  too large**;
* `JacobianAudit.overflow_escapes` — some accepted settings are.
-/

import Mathlib.Data.Set.List
import JacobianAudit.Proofs.Obstacles

set_option autoImplicit false

namespace JacobianAudit

/-! ### Settings that are too large -/

namespace Binary64

open Float.Model (UnpackedFloat)

/-- The place of the number one. -/
theorem place_one : place? (Scalar.one : Float).toModel.unpack =
    some (toLex (1, toLex (-52, (4503599627370496 : ℤ)))) := by decide +kernel

/-- A number above one is positive. -/
theorem unpack_of_one_lt {x : Float} (h : Scalar.lt Scalar.one x = true) :
    x.toModel.unpack = .infinity .positive ∨
      ∃ m q hm, x.toModel.unpack = .finite .positive m q hm := by
  obtain ⟨hle, -⟩ := Bool.and_eq_true_iff.1 h
  obtain ⟨p, hp, q, hq, hpq⟩ := (le_iff _ _).1 hle
  obtain rfl := Option.some.inj (place_one.symm.trans hp)
  cases hx : x.toModel.unpack with
  | notANumber =>
      rw [hx] at hq
      cases hq
  | infinity sign =>
      cases sign with
      | positive => exact .inl rfl
      | negative =>
          rw [hx] at hq
          obtain rfl := Option.some.inj hq
          simp [Prod.Lex.le_iff] at hpq
  | zero sign =>
      rw [hx] at hq
      obtain rfl := Option.some.inj hq
      simp [Prod.Lex.le_iff] at hpq
  | finite sign m e hm =>
      cases sign with
      | positive => exact .inr ⟨m, e, hm, rfl⟩
      | negative =>
          rw [hx] at hq
          obtain rfl := Option.some.inj hq
          simp [Prod.Lex.le_iff] at hpq

/-- A finite power of a positive number is too large, if it is no number. -/
theorem eq_overflow_of_raiseFinite {x : Float} {y : Exponent} {fault : Fault}
    (hx : Scalar.lt Scalar.one x = true) (h : raiseFinite x y = .error fault) :
    fault = .overflow := by
  unfold raiseFinite at h
  rcases unpack_of_one_lt hx with hx | ⟨m, q, hm, hx⟩
  · rw [hx] at h
    cases h
  · rw [hx] at h
    have hpositive : (UnpackedFloat.Sign.positive == .negative) = false := rfl
    simp only [hpositive, Bool.false_and, Bool.false_eq_true, if_false] at h
    split at h
    · cases h
    · exact (Except.error.inj h).symm

theorem eq_overflow_of_toReal {n : ℤ} {fault : Fault} (h : Setting.toReal n = .error fault) :
    fault = .overflow := by
  unfold Setting.toReal at h
  simp only [] at h
  split at h
  · cases h
  · exact (Except.error.inj h).symm

/-- **The powers of a number above one are numbers unless they are too large.** -/
theorem eq_overflow_of_power {x : Float} {n : ℤ} {fault : Fault}
    (hx : Scalar.lt Scalar.one x = true) (h : Scalar.power x n = .error fault) :
    fault = .overflow := by
  rcases Except.bind_eq_error_iff.1 h with h | ⟨y, -, h⟩
  · exact eq_overflow_of_toReal h
  · unfold raise at h
    split at h
    · cases h
    · cases h
    · split at h
      · cases h
      · exact eq_overflow_of_raiseFinite hx h

end Binary64

/-- The number of workers is unknown only if there is no end to it. -/
theorem Workers.eq_overflow_of_requested {setting : Setting} {fault : Fault}
    (h : requested setting = .error fault) : fault = .overflow := by
  unfold requested at h
  split at h
  · cases h
  · exact (Except.error.inj h).symm
  · cases h

/-- Settings of binary64 numbers only ever are too large. -/
theorem DiffOptions.Raises.eq_overflow {o : DiffOptions Float} {fault : Fault}
    (h : o.Raises fault) : fault = .overflow := by
  rcases h with h | ⟨-, j, -, -, h⟩
  · exact Workers.eq_overflow_of_requested h
  · exact Binary64.eq_overflow_of_power o.one_lt_riddersShrink h

/-! ### Probes where everyone answers -/

variable {σ α : Type} [Scalar α] {rows : ℕ} {sizes : List ℕ}

/-- There are arrays for the residuals, for the blocks and for their Jacobians. -/
structure Spacious (rows : ℕ) (sizes : List ℕ) : Prop where
  residuals : Shape.Held [rows]
  block : ∀ n ∈ sizes, Shape.Held [n]
  matrix : ∀ n ∈ sizes, Shape.Held [rows, n]

namespace Checker

/-- All callers of a probe keep their promises: the evaluator answers as declared, and so does the
manifold of each block. -/
structure Answered (c : Checker σ α) (rows : ℕ) (sizes : List ℕ) : Prop where
  evaluator : c.evaluator.Responds rows sizes
  sizes_eq : c.sizes = sizes.map .count
  total : ∀ space ∈ c.spaces, ∀ m ∈ space.manifold, ∃ height width, m.Total height width
  spacious : Spacious rows sizes

variable {c : Checker σ α} {machine : Machine} {blocks : List (List α)} {recording : Bool}
  {w w' : World σ} {tolerance : α}

/-! ### One block -/

/-- The manifold of a block answers for the size of the block. -/
theorem Answered.exists_width (h : c.Answered rows sizes) {space : BlockSpace σ α}
    (hs : space ∈ c.spaces) {n : ℕ} (hn : space.size = .count n) :
    ∃ width ≤ n, space.tangentSize = .count width ∧ HasCoordinates space.manifold n width ∧
      ∀ m ∈ space.manifold, m.Total n width := by
  unfold BlockSpace.tangentSize HasCoordinates
  cases hm : space.manifold with
  | none => exact ⟨n, le_rfl, hn, rfl, nofun⟩
  | some m =>
      obtain ⟨height, width, htotal⟩ := h.total space hs m hm
      have hambient := space.ambient_eq m hm
      rw [hn, htotal.ambientSize_eq, Setting.equals_whole, decide_eq_true_eq] at hambient
      obtain rfl := Int.ofNat.inj hambient
      refine ⟨width, htotal.width_le, htotal.tangentSize_eq, htotal.tangentSize_eq, ?_⟩
      intro m' hm'
      rw [← Option.some.inj hm']
      exact htotal

/-- What can stop the numeric Jacobians of a block. -/
theorem Answered.numeric_promises (h : c.Answered rows sizes) (hb : blocks.map List.length = sizes)
    {k : ℕ} {space : BlockSpace σ α} {block : List α} (hs : c.spaces[k]? = some space)
    (hk : blocks[k]? = some block) {residuals : List α} (hr : residuals.length = rows) :
    (c.numeric blocks residuals recording k space).Promises (fun _ => True) c.options.Stops := by
  obtain ⟨hsize, hmem⟩ := size_eq_count h.sizes_eq hb hs hk
  obtain ⟨width, -, -, hcoordinates, htotal⟩ := h.exists_width (List.mem_of_getElem? hs) hsize
  have hrows := h.spacious.residuals
  have hblock := h.spacious.block _ hmem
  unfold numeric
  refine (estimate_promises h.evaluator hb hk hcoordinates htotal hrows hblock hr).bind
    fun tangent _ => ?_
  cases recording with
  | false => exact .pure trivial
  | true =>
      cases hm : space.manifold with
      | none => exact .pure trivial
      | some m =>
          -- along its entries the block is differentiated as if it had no manifold
          have hentries : HasCoordinates (none : Option (Manifold σ α)) block.length
            block.length := rfl
          exact (estimate_promises h.evaluator hb hk hentries nofun hrows hblock hr).bind
            fun ambient _ => .pure trivial

/-- **What can stop the work on a block**: a value that is missing, or the settings. A projection is
never in the way. -/
theorem Answered.stops (h : c.Answered rows sizes) (hb : blocks.map List.length = sizes)
    {task : ℕ × BlockSpace σ α × List α × Tensor α} {jacobians : List (Tensor α)}
    (htask : task ∈ c.tasks blocks jacobians) (hj : task.2.2.2.shape = [rows, task.2.2.1.length])
    {residuals : List α} (hr : residuals.length = rows) {fault : Fault} {kept : Option (Tensor α)}
    (hstops : c.Stops machine blocks residuals recording w task fault kept w') :
    c.options.Stops fault := by
  cases hstops with
  | projection hproject =>
      obtain ⟨hs, hk, -⟩ := mem_tasks_iff.1 htask
      obtain ⟨width, -, -, -, htotal⟩ :=
        h.exists_width (List.mem_of_getElem? hs) (size_eq_count h.sizes_eq hb hs hk).1
      exact ((project_promises (fun m hm => ⟨width, htotal m hm⟩) hj).faults hproject).elim
  | derivative _ hnumeric =>
      obtain ⟨hs, hk, -⟩ := mem_tasks_iff.1 htask
      exact (h.numeric_promises hb hs hk hr).faults hnumeric

/-! ### Whole probes -/

/-- The declared sizes of a probe are counts, and there are zero matrices of all shapes. -/
theorem Answered.exists_declares (h : c.Answered rows sizes) :
    (∃ tangentSizes, c.Declares rows sizes tangentSizes) ∧ c.Clears := by
  have hspace : ∀ s ∈ c.tangentSizes, ∃ width, s = .count width ∧ Shape.Held [rows, width] := by
    intro s hs
    obtain ⟨space, hspace, rfl⟩ := List.mem_map.1 hs
    have hsize : space.size ∈ sizes.map Setting.count :=
      h.sizes_eq ▸ List.mem_map_of_mem (f := BlockSpace.size) hspace
    obtain ⟨n, hn, hsize⟩ := List.mem_map.1 hsize
    obtain ⟨width, hle, htangent, -⟩ := h.exists_width hspace hsize.symm
    exact ⟨width, htangent, (h.spacious.matrix n hn).mono (.cons le_rfl (.cons hle .nil))⟩
  constructor
  · obtain ⟨widths, hwidths⟩ : c.tangentSizes ∈ Set.range (List.map Setting.count) := by
      rw [Set.range_list_map]
      intro s hs
      obtain ⟨width, rfl, -⟩ := hspace s hs
      exact ⟨width, rfl⟩
    exact ⟨widths, h.evaluator.numResiduals_eq, h.sizes_eq, hwidths.symm⟩
  · unfold Clears
    rw [h.evaluator.numResiduals_eq]
    refine Record.reset_eq_ok _ h.spacious.residuals (fun s hs => ?_) hspace
    rw [h.sizes_eq] at hs
    obtain ⟨n, hn, rfl⟩ := List.mem_map.1 hs
    exact ⟨n, rfl, h.spacious.matrix n hn⟩

/-- The evaluator is asked at the point without a fault. -/
theorem Answered.read_promises (h : c.Answered rows sizes) (hb : blocks.map List.length = sizes) :
    (c.read blocks).Promises (fun _ => True) fun _ => False := by
  refine (h.evaluator.jacobians blocks hb).bind fun reply hreply => ?_
  cases reply with
  | none => exact .pure trivial
  | some answer =>
      obtain ⟨hresiduals, js, hjs, hmatrices⟩ := hreply answer rfl
      obtain ⟨residuals, hread, -⟩ := hresiduals.exists_readResiduals
      rw [← h.evaluator.numResiduals_eq] at hread
      refine .ofExcept_bind hread ?_
      have hlength : js.length = blocks.length := by
        rw [hmatrices.length_eq, ← hb, List.length_map]
      -- each Jacobian is answered with the size of its block
      have hitems : List.Forall₂ (fun j s => ∃ n, s = Setting.count n ∧ Shape.Held [rows, n] ∧
          j.HasMatrix rows n) js c.sizes := by
        rw [h.sizes_eq]
        refine (List.forall₂_map_left_iff.2 ?_).flip
        exact ((List.forall₂_and_left _ _).2 ⟨h.spacious.matrix, hmatrices.flip⟩).imp
          fun n _ hj => ⟨n, rfl, hj⟩
      have hone : ∀ p ∈ (js.zip c.sizes).zipIdx, ∃ t : Tensor α,
          readMatrix p.1.1 c.evaluator.numResiduals p.1.2
            ("Jacobian of block " ++ toString p.2) = .ok t := by
        rintro ⟨⟨j, s⟩, k⟩ hp
        obtain ⟨n, rfl, hn, hmatrix⟩ := List.forall₂_zip hitems (List.fst_mem_of_mem_zipIdx hp)
        obtain ⟨t, ht, -⟩ := hmatrix.exists_readMatrix hn ("Jacobian of block " ++ toString k)
        rw [h.evaluator.numResiduals_eq]
        exact ⟨t, ht⟩
      obtain ⟨ts, hts⟩ := exists_forall₂ hone
      simp only [hjs, hlength, if_true]
      exact .ofExcept_bind (Except.mapM_eq_ok_iff.2 hts) (.pure trivial)

/-- **Only the settings keep a probe from answering.** -/
theorem Answered.verdict_of_ends (h : c.Answered rows sizes) (hb : blocks.map List.length = sizes)
    {ending : Ending α} (hends : c.Ends machine blocks tolerance recording w ending) :
    (∃ answer, ending.verdict tolerance = .ok answer) ∨
      ∃ fault, ending.verdict tolerance = .error fault ∧ c.options.Raises fault := by
  obtain ⟨⟨tangentSizes, hdeclares⟩, -⟩ := h.exists_declares
  cases hends with
  | faulted hread => exact ((h.read_promises hb).faults hread).elim
  | pointFailed => exact .inl ⟨false, rfl⟩
  | @interrupted reading progress k fault w₁ w₂ hread hd =>
      obtain ⟨hresiduals, hjacobians⟩ := hdeclares.of_read hb hread
      have hfits := hdeclares.fits hb hjacobians
      obtain ⟨done, task, rest, _, _, _, htodo, -, -, hstops, -⟩ := of_differentiate_some hd
      have htask : task ∈ c.tasks blocks reading.jacobians := by
        rw [htodo]
        exact List.mem_append_cons_self
      obtain ⟨dims, -, hfit⟩ := exists_of_forall₂_mem hfits.flip htask
      have hshape : task.2.2.2.shape = [rows, task.2.2.1.length] :=
        hfit.length_eq ▸ hfit.jacobian
      rcases h.stops hb htask hshape hresiduals hstops with ⟨cause, rfl⟩ | hraises
      · exact .inl ⟨false, rfl⟩
      · cases fault with
        | evaluation cause => exact .inl ⟨false, rfl⟩
        | _ => exact .inr ⟨_, rfl, hraises⟩
  | incomparable hread hms hc =>
      -- the matrices of each block have one shape
      obtain ⟨-, hjacobians⟩ := hdeclares.of_read hb hread
      have hsized := hms.shapes h.evaluator.numResiduals_eq (hdeclares.fits hb hjacobians)
      obtain ⟨comparisons, hcompare⟩ := exists_compare tolerance fun m hm => by
        obtain ⟨dims, -, hone⟩ := exists_of_forall₂_mem hsized.flip hm
        exact ⟨rows, dims.2, hone.tangent, hone.numericTangent⟩
      rw [hcompare] at hc
      cases hc
  | compared => exact .inl ⟨_, rfl⟩

/-- **A probe answers yes or no, unless the settings keep it from doing so**, whether or not it
keeps a record. -/
theorem Answered.exists_run (h : c.Answered rows sizes) (machine : Machine) (w : World σ)
    {parameters : List (Supplied α)} (ht : Scalar.le Scalar.zero tolerance = true)
    (hb : readBlocks parameters c.sizes = .ok blocks) (recording : Bool) :
    ∃ ending w', (c.run parameters tolerance recording).perform machine w = (.ok ending, w') ∧
      ((∃ answer, ending.verdict tolerance = .ok answer) ∨
        ∃ fault, ending.verdict tolerance = .error fault ∧ c.options.Raises fault) := by
  obtain ⟨-, hclears⟩ := h.exists_declares
  have hlengths : blocks.map List.length = sizes := by
    rw [h.sizes_eq] at hb
    exact lengths_of_readBlocks hb
  rw [run_eq_runAt ht hb fun _ => hclears]
  obtain ⟨ending, w', hat, -⟩ := (c.runAt_answers blocks tolerance recording).exists_ok machine w
  exact ⟨ending, w', hat, h.verdict_of_ends hlengths (ends_of_runAt hat)⟩

/-- A checker of functions that answer as declared, on the library's manifolds. -/
theorem answered_of_make {f : Functions σ α} {manifolds : Option (List (Option (Manifold σ α)))}
    {options : DiffOptions α} {cap : Setting} (hmake : make f.toEvaluator manifolds options cap =
      .ok c) (hf : f.Answers rows sizes) (hspacious : Spacious rows sizes)
    (hlibrary : ∀ given ∈ manifolds, ∀ custom, some (.custom custom) ∉ given)
    (hroom : ∀ given ∈ manifolds, ∀ m, some m ∈ given → m.room = .ok ()) :
    c.Answered rows sizes := by
  obtain ⟨hevaluator, -, ⟨accepted, haccepted, hsizes⟩, hmanifolds⟩ := of_make hmake
  obtain ⟨rfl, hne⟩ := readSizes_whole haccepted
  have hblocks : f.blockSizes.map Setting.whole = sizes.map .count := by
    rw [hf.blockSizes_eq, List.map_map]
    rfl
  refine ⟨?_, hsizes.trans hblocks, fun space hs m hm => ?_, hspacious⟩
  · rw [hevaluator]
    refine hf.responds ?_ hspacious.matrix
    rintro rfl
    exact hne hf.blockSizes_eq
  · obtain ⟨given, hgiven, hmem⟩ := hmanifolds space hs m hm
    refine Manifold.total_of_library (fun custom hcustom => ?_) (hroom given hgiven m hmem)
    exact hlibrary given hgiven custom (hcustom ▸ hmem)

/-- **A probe answers yes or no unless a setting is too large.** If the functions answer with
nothing or with arrays of the declared sizes, and the manifolds are the library's, the one fault
that leaves a probe is that the number of workers or a power of the shrink factor is out of range.
All of this is as far as there are the arrays that a probe makes. -/
theorem only_overflow_escapes {f : Functions σ Float}
    {manifolds : Option (List (Option (Manifold σ Float)))} {options : DiffOptions Float}
    {cap : Setting} {c : Checker σ Float}
    (hmake : make f.toEvaluator manifolds options cap = .ok c) (hf : f.Answers rows sizes)
    (hlibrary : ∀ given ∈ manifolds, ∀ custom, some (.custom custom) ∉ given)
    (hspacious : Spacious rows sizes)
    (hroom : ∀ given ∈ manifolds, ∀ m, some m ∈ given → m.room = .ok ())
    (machine : Machine) (w : World σ) (parameters : List (Supplied Float))
    (blocks : List (List Float)) (tolerance : Float)
    (ht : Scalar.le Scalar.zero tolerance = true)
    (hb : readBlocks parameters c.sizes = .ok blocks) :
    (∃ verdict w', (c.probe parameters tolerance).perform machine w = (verdict, w') ∧
      ((∃ answer, verdict = .ok answer) ∨
        verdict = .error .overflow ∧ options.Raises .overflow)) ∧
    ∀ before, ∃ verdict record w', (c.probeInto parameters tolerance before).perform machine w =
        (.ok (verdict, record), w') ∧
      ((∃ answer, verdict = .ok answer) ∨
        verdict = .error .overflow ∧ options.Raises .overflow) := by
  have hanswered := answered_of_make hmake hf hspacious hlibrary hroom
  obtain ⟨-, hoptions, -, -⟩ := of_make hmake
  subst hoptions
  -- on binary64 numbers there is but one fault that settings cause
  have hrun : ∀ recording, ∃ ending w', (c.run parameters tolerance recording).perform machine w =
        (.ok ending, w') ∧
      ((∃ answer, ending.verdict tolerance = .ok answer) ∨
        ending.verdict tolerance = .error .overflow ∧ c.options.Raises .overflow) := by
    intro recording
    obtain ⟨ending, w', hrun, hverdict⟩ := hanswered.exists_run machine w ht hb recording
    refine ⟨ending, w', hrun, hverdict.imp_right ?_⟩
    rintro ⟨fault, hfault, hraises⟩
    obtain rfl := hraises.eq_overflow
    exact ⟨hfault, hraises⟩
  constructor
  · obtain ⟨ending, w', hrun, hverdict⟩ := hrun false
    refine ⟨_, w', ?_, hverdict⟩
    unfold probe
    rw [Action.perform_bind_of_ok hrun, Action.perform_ofExcept]
  · intro before
    obtain ⟨ending, w', hrun, hverdict⟩ := hrun true
    exact ⟨_, _, w', perform_probeInto_iff.2 ⟨ending, hrun, rfl, rfl⟩, hverdict⟩

end Checker

/-- A residual that does not depend on anything, and its Jacobian. -/
def level : Functions Unit Float where
  function _ := pure (.vector [1.0])
  jacobian := some fun _ => pure (some [.array (.matrix 1 1 fun _ _ => 0.0)])
  blockSizes := [1]
  numResiduals := 1

/-- Accepted settings with steps that shrink fast. -/
def steep : DiffOptions Float :=
  { DiffOptions.standard with
    riddersShrink := 1e200
    one_lt_riddersShrink := by decide +kernel }

/-- The checker of that residual with these settings. -/
def steepChecker : Checker Unit Float where
  evaluator := level.toEvaluator
  spaces := [.plain (.count 1)]
  options := steep
  cap := defaultCap

theorem level_answers : level.Answers 1 [1] where
  numResiduals_eq := rfl
  blockSizes_eq := rfl
  function _ _ := .pure (.inr (Supplied.hasEntries_vector [1.0]))
  jacobian := by
    refine ⟨_, rfl, fun _ _ => .pure fun js hjs => ?_⟩
    rw [← Option.some.inj hjs]
    exact .cons ⟨_, rfl, .inl rfl⟩ .nil

theorem spacious_level : Spacious 1 [1] where
  residuals := by decide
  block := by decide
  matrix := by decide

theorem only_overflow_escapes_steep :
    Checker.make level.toEvaluator none steep (.whole defaultCap) = .ok steepChecker ∧
      level.Answers 1 [1] ∧ Spacious 1 [1] ∧ Scalar.le Scalar.zero (1e-6 : Float) = true ∧
      readBlocks [.vector [2.0]] steepChecker.sizes = .ok [[(2.0 : Float)]] ∧
      ∃ w', (steepChecker.probe [.vector [2.0]] 1e-6).perform plainMachine ⟨(), [], []⟩ =
        (.error .overflow, w') ∧ steep.Raises .overflow := by
  have hmake : Checker.make level.toEvaluator none steep (.whole defaultCap) =
      .ok steepChecker := rfl
  have ht : Scalar.le Scalar.zero (1e-6 : Float) = true := by decide +kernel
  refine ⟨hmake, level_answers, spacious_level, ht, rfl, ?_⟩
  have hprobe : ((steepChecker.probe [.vector [2.0]] 1e-6).perform plainMachine
      ⟨(), [], []⟩).1 = .error .overflow := by decide +kernel
  obtain ⟨⟨verdict, w', h, hverdict⟩, -⟩ := Checker.only_overflow_escapes hmake level_answers nofun
    spacious_level nofun plainMachine ⟨(), [], []⟩ [.vector [2.0]] [[2.0]] 1e-6 ht rfl
  rw [h] at hprobe
  obtain rfl : verdict = .error .overflow := hprobe
  rcases hverdict with ⟨answer, hanswer⟩ | ⟨-, hraises⟩
  · cases hanswer
  · exact ⟨w', h, hraises⟩

/-- **Some accepted settings are too large**: here the second power of the shrink factor is, and the
fault reaches the caller although everyone else kept his promises. -/
theorem overflow_escapes :
    ¬∀ (f : Functions Unit Float) (manifolds : Option (List (Option (Manifold Unit Float))))
      (options : DiffOptions Float) (cap : Setting) (c : Checker Unit Float) (rows : ℕ)
      (sizes : List ℕ) (machine : Machine) (w : World Unit) (parameters : List (Supplied Float))
      (blocks : List (List Float)) (tolerance : Float),
      Checker.make f.toEvaluator manifolds options cap = .ok c → f.Answers rows sizes →
      (∀ given ∈ manifolds, ∀ custom, some (.custom custom) ∉ given) → Spacious rows sizes →
      (∀ given ∈ manifolds, ∀ space, some (.euclidean space) ∈ given →
        Shape.Held [space.size, space.size]) →
      Scalar.le Scalar.zero tolerance = true → readBlocks parameters c.sizes = .ok blocks →
      ∃ answer w', (c.probe parameters tolerance).perform machine w = (.ok answer, w') := by
  intro h
  have hprobe : ((steepChecker.probe [.vector [2.0]] 1e-6).perform plainMachine
      ⟨(), [], []⟩).1 = .error .overflow := by decide +kernel
  obtain ⟨answer, w', hanswer⟩ := h level none steep (.whole defaultCap) steepChecker 1 [1]
    plainMachine ⟨(), [], []⟩ [.vector [2.0]] [[2.0]] 1e-6 rfl level_answers nofun spacious_level
    nofun (by decide +kernel) rfl
  rw [hanswer] at hprobe
  cases hprobe

end JacobianAudit
