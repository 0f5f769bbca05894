/-
**What has been read.**

Arrays that callers hand over are checked against declared sizes when they are read. This module
says what is known of them afterwards: there are as many blocks as sizes, a matrix has the declared
shape, and what has been read once is read again without a change.

Main results:

* `JacobianAudit.length_of_readBlocks` — one block for each size;
* `JacobianAudit.readBlocks_vector_iff` — which vectors are accepted as blocks;
* `JacobianAudit.shape_of_readMatrix` — **a matrix that was read has the declared shape**;
* `JacobianAudit.readMatrix_of_shape` — a matrix of the declared shape is read as it is.
-/

import Mathlib.Data.Int.Notation
import JacobianAudit.Evaluator.Sizes
import JacobianAudit.Proofs.Runs

set_option autoImplicit false

namespace JacobianAudit

variable {σ α : Type} [Scalar α]

/-! ### Blocks -/

/-- One block is read for each declared size. -/
theorem length_of_readBlocks {parameters : List (Supplied α)} {sizes : List Setting}
    {blocks : List (List α)} (h : readBlocks parameters sizes = .ok blocks) :
    blocks.length = sizes.length := by
  unfold readBlocks at h
  split at h
  · rename_i hlen
    have := (Except.mapM_eq_ok_iff.1 h).length_eq
    simpa [hlen] using this.symm
  · cases h

/-- The blocks that are read have the declared sizes, in whatever form these were written. -/
theorem equals_of_readBlocks {parameters : List (Supplied α)} {sizes : List Setting}
    {blocks : List (List α)} (h : readBlocks parameters sizes = .ok blocks) (k : ℕ)
    (hk : k < blocks.length) (hs : k < sizes.length) :
    sizes[k].equals (.count blocks[k].length) = true := by
  unfold readBlocks at h
  split at h
  · rename_i hlen
    have hread := (Except.mapM_eq_ok_iff_getElem.1 h).2 k (by simpa [hlen] using hs) hk
    simp only [List.getElem_zipIdx, List.getElem_zip] at hread
    obtain ⟨entries, -, hread⟩ := Except.bind_eq_ok_iff.1 hread
    split at hread
    · rename_i hsize
      rwa [← Except.ok.inj hread]
    · cases hread
  · cases h

theorem lengths_of_readBlocks {parameters : List (Supplied α)} {sizes : List ℕ}
    {blocks : List (List α)} (h : readBlocks parameters (sizes.map .count) = .ok blocks) :
    blocks.map List.length = sizes := by
  have hl : blocks.length = sizes.length := by simpa using length_of_readBlocks h
  refine List.ext_getElem (by simp [hl]) fun k hk hs => ?_
  have hsize := equals_of_readBlocks h k (by simpa using hk) (by simpa using hs)
  rw [List.getElem_map, Setting.equals_whole, decide_eq_true_eq] at hsize
  rw [List.getElem_map, ← Int.ofNat.inj hsize]

theorem entries_vector (xs : List α) : (Supplied.vector xs).entries = .ok xs := rfl

/-- Vectors are read as they are, if their sizes are the declared ones. -/
theorem readBlocks_vector_iff {blocks read : List (List α)} {sizes : List Setting} :
    readBlocks (blocks.map .vector) sizes = .ok read ↔
      read = blocks ∧ blocks.length = sizes.length ∧
        ∀ k (hk : k < blocks.length) (hs : k < sizes.length),
          sizes[k].equals (.count blocks[k].length) = true := by
  have hone : ∀ (k : ℕ) (block : List α) (size : Setting) (xs : List α),
      readBlock k (.vector block) size = .ok xs ↔
        xs = block ∧ size.equals (.count block.length) = true := by
    intro k block size xs
    unfold readBlock
    rw [entries_vector, Except.bind_eq_ok_iff]
    constructor
    · rintro ⟨entries, he, h⟩
      obtain rfl := Except.ok.inj he
      split at h
      · exact ⟨(Except.ok.inj h).symm, ‹_›⟩
      · cases h
    · rintro ⟨rfl, h⟩
      exact ⟨xs, rfl, if_pos h⟩
  unfold readBlocks
  rw [List.length_map]
  by_cases hlen : blocks.length = sizes.length
  · rw [if_pos hlen, Except.mapM_eq_ok_iff_getElem]
    simp only [List.length_zipIdx, List.length_zip, List.length_map, List.getElem_zipIdx,
      List.getElem_zip, List.getElem_map, hone]
    constructor
    · rintro ⟨hl, h⟩
      refine ⟨List.ext_getElem (by omega) fun k hk hk' => ?_, hlen, fun k hk hs => ?_⟩
      · exact (h k (by omega) hk).1
      · exact (h k (by omega) (by omega)).2
    · rintro ⟨rfl, -, h⟩
      exact ⟨by omega, fun k hk hk' => ⟨rfl, h k hk' (by omega)⟩⟩
  · rw [if_neg hlen]
    constructor
    · intro h
      cases h
    · rintro ⟨-, h, -⟩
      exact absurd h hlen

/-- What has been read as blocks is read again without a change. -/
theorem readBlocks_again {parameters : List (Supplied α)} {sizes : List Setting}
    {blocks : List (List α)} (h : readBlocks parameters sizes = .ok blocks) :
    readBlocks (blocks.map .vector) sizes = .ok blocks :=
  readBlocks_vector_iff.2 ⟨rfl, length_of_readBlocks h, equals_of_readBlocks h⟩

/-- Vectors are accepted as blocks of their own sizes. -/
theorem readBlocks_vector (blocks : List (List α)) :
    readBlocks (blocks.map .vector) ((blocks.map List.length).map .count) = .ok blocks :=
  readBlocks_vector_iff.2 ⟨rfl, by simp, fun _ _ _ => by simp⟩

/-! ### Matrices -/

omit [Scalar α] in
/-- Only an integer is an extent. -/
theorem eq_whole_of_extent {s : Setting} {n : ℤ} (h : s.extent = .ok n) : s = .whole n := by
  unfold Setting.extent at h
  split at h
  · split at h
    · rw [Except.ok.inj h]
    · cases h
  · cases h

omit [Scalar α] in
/-- Extents that were accepted are counts, and there is an array of their shape. -/
theorem of_ofSettings {extents : List Setting} {shape : Shape}
    (h : Shape.ofSettings extents = .ok shape) :
    extents = shape.map Setting.count ∧ shape.allocate = .ok shape := by
  unfold Shape.ofSettings at h
  split at h
  · cases h
  · obtain ⟨ints, hints, h⟩ := Except.bind_eq_ok_iff.1 h
    split at h
    · rename_i hpos
      obtain ⟨rfl, -, -⟩ := Shape.allocate_eq_ok_iff.1 h
      obtain ⟨hlength, hextent⟩ := Except.mapM_eq_ok_iff_getElem.1 hints
      refine ⟨List.ext_getElem (by simp [hlength]) fun k hk hk' => ?_, h⟩
      have hk'' : k < ints.length := hlength ▸ hk
      have hn := List.all_eq_true.1 hpos _ (List.getElem_mem hk'')
      rw [eq_whole_of_extent (hextent k hk hk''), List.getElem_map, List.getElem_map,
        Setting.count, Int.toNat_of_nonneg (of_decide_eq_true hn)]
    · cases h

omit [Scalar α] in
/-- Integers that are no extents of an array are refused for their size. -/
theorem fault_of_ofSettings {extents : List ℤ} {fault : Fault}
    (h : Shape.ofSettings (extents.map Setting.whole) = .error fault) :
    (∃ cause, fault = .malformed cause) ∨ fault = .memory := by
  unfold Shape.ofSettings at h
  split at h
  · exact Or.inl ⟨_, (Except.error.inj h).symm⟩
  rcases Except.bind_eq_error_iff.1 h with h | ⟨ints, -, h⟩
  · obtain ⟨s, hs, h⟩ := Except.exists_of_mapM_eq_error h
    obtain ⟨n, -, rfl⟩ := List.mem_map.1 hs
    unfold Setting.extent at h
    simp only [] at h
    split at h
    · cases h
    · exact Or.inl ⟨_, (Except.error.inj h).symm⟩
  · split at h
    · unfold Shape.allocate at h
      split at h
      · split at h
        · cases h
        · exact Or.inr (Except.error.inj h).symm
      · exact Or.inl ⟨_, (Except.error.inj h).symm⟩
    · exact Or.inl ⟨_, (Except.error.inj h).symm⟩

/-- What is read as a matrix has as many rows and columns as declared, in whatever form these were
written. -/
theorem equals_of_readMatrix {s : Supplied α} {rows cols : Setting} {name : String} {t : Tensor α}
    (h : readMatrix s rows cols name = .ok t) :
    ∃ m n : ℕ, t.shape = [m, n] ∧ rows.equals (.count m) = true ∧
      cols.equals (.count n) = true := by
  obtain ⟨a, -, h⟩ := Except.bind_eq_ok_iff.1 h
  obtain ⟨flat, -, h⟩ := Except.bind_eq_ok_iff.1 h
  cases flat with
  | true =>
      obtain ⟨shape, hs, h⟩ := Except.bind_eq_ok_iff.1 h
      split at h
      · obtain ⟨hextents, -⟩ := of_ofSettings hs
        obtain rfl := Except.ok.inj h
        match shape, hextents with
        | [m, n], hextents =>
            obtain ⟨rfl, rfl⟩ := by simpa using hextents
            exact ⟨m, n, rfl, by simp, by simp⟩
      · cases h
  | false =>
      simp only [Bool.false_eq_true, if_false] at h
      split at h
      · rename_i hmatrix
        obtain rfl := Except.ok.inj h
        unfold isMatrix at hmatrix
        split at hmatrix
        · rename_i m n hshape
          rw [Bool.and_eq_true] at hmatrix
          exact ⟨m, n, hshape, hmatrix.1, hmatrix.2⟩
        · cases hmatrix
      · cases h

/-- What is read as a matrix of a declared shape has that shape. -/
theorem shape_of_readMatrix {s : Supplied α} {rows cols : ℤ} {name : String} {t : Tensor α}
    (h : readMatrix s (.whole rows) (.whole cols) name = .ok t) :
    ∃ m n : ℕ, t.shape = [m, n] ∧ rows = m ∧ cols = n := by
  obtain ⟨m, n, hshape, hm, hn⟩ := equals_of_readMatrix h
  rw [Setting.equals_whole, decide_eq_true_eq] at hm hn
  exact ⟨m, n, hshape, hm, hn⟩

theorem eq_unreadable_of_read {s : Supplied α} {fault : Fault} (h : s.read = .error fault) :
    s = .unreadable fault := by
  cases s with
  | unreadable cause => rw [Except.error.inj h]
  | _ => cases h

/-- Only what cannot be read has no entries. -/
theorem eq_unreadable_of_entries {s : Supplied α} {fault : Fault}
    (h : s.entries = .error fault) : s = .unreadable fault := by
  rcases Except.bind_eq_error_iff.1 h with h | ⟨t, -, h⟩
  · exact eq_unreadable_of_read h
  · cases h

/-- A matrix is refused because it cannot be read, because of its shape, or because there is no
array of the declared shape. -/
theorem fault_of_readMatrix {s : Supplied α} {rows cols : ℤ} {name : String} {fault : Fault}
    (h : readMatrix s (.whole rows) (.whole cols) name = .error fault) :
    s = .unreadable fault ∨ (∃ cause, fault = .size cause) ∨ (∃ cause, fault = .malformed cause) ∨
      fault = .memory := by
  rcases Except.bind_eq_error_iff.1 h with h | ⟨t, -, h⟩
  · exact Or.inl (eq_unreadable_of_read h)
  refine Or.inr ?_
  rcases Except.bind_eq_error_iff.1 h with h | ⟨flat, -, h⟩
  · -- two integers have a product
    unfold isFlatMatrix at h
    split at h
    · cases h
    · cases h
  cases flat with
  | true =>
      rcases Except.bind_eq_error_iff.1 h with h | ⟨shape, -, h⟩
      · have hextents : Shape.ofSettings ([rows, cols].map Setting.whole) = .error fault := h
        exact Or.inr (fault_of_ofSettings hextents)
      · split at h
        · cases h
        · exact Or.inr (Or.inl ⟨_, (Except.error.inj h).symm⟩)
  | false =>
      simp only [Bool.false_eq_true, if_false] at h
      split at h
      · cases h
      · exact Or.inl ⟨_, (Except.error.inj h).symm⟩

/-- Reading a matrix gives it a shape and leaves its entries alone. -/
theorem entries_of_readMatrix {s : Supplied α} {rows cols : Setting} {name : String} {t : Tensor α}
    (h : readMatrix s rows cols name = .ok t) : s.entries = .ok t.data := by
  obtain ⟨a, ha, h⟩ := Except.bind_eq_ok_iff.1 h
  obtain ⟨flat, -, h⟩ := Except.bind_eq_ok_iff.1 h
  refine Except.bind_eq_ok_iff.2 ⟨a, ha, congrArg Except.ok ?_⟩
  cases flat with
  | true =>
      obtain ⟨shape, -, h⟩ := Except.bind_eq_ok_iff.1 h
      split at h
      · rw [← Except.ok.inj h]
        rfl
      · cases h
  | false =>
      simp only [Bool.false_eq_true, if_false] at h
      split at h
      · rw [Except.ok.inj h]
      · cases h

/-- Reading residuals leaves them as they are. -/
theorem entries_of_readResiduals {s : Supplied α} {declared : Setting} {residuals : List α}
    (h : readResiduals s declared = .ok residuals) : s.entries = .ok residuals := by
  obtain ⟨entries, he, h⟩ := Except.bind_eq_ok_iff.1 h
  split at h
  · rw [he, Except.ok.inj h]
  · cases h

/-- Residuals with as many entries as declared are read as they are. -/
theorem readResiduals_of_entries {s : Supplied α} {xs : List α} (h : s.entries = .ok xs) :
    readResiduals s (.count xs.length) = .ok xs := by
  unfold readResiduals
  rw [h]
  simp [bind, Except.bind, pure, Except.pure]

/-- What has been read as residuals is read again without a change. -/
theorem readResiduals_again {s : Supplied α} {declared : Setting} {residuals : List α}
    (h : readResiduals s declared = .ok residuals) :
    readResiduals (.vector residuals) declared = .ok residuals := by
  unfold readResiduals at h ⊢
  rwa [entries_of_readResiduals h] at h

/-- As many residuals are read as declared. -/
theorem length_of_readResiduals {s : Supplied α} {rows : ℤ} {residuals : List α}
    (h : readResiduals s (.whole rows) = .ok residuals) : (residuals.length : ℤ) = rows := by
  obtain ⟨entries, -, h⟩ := Except.bind_eq_ok_iff.1 h
  split at h
  · rename_i hlength
    rw [Setting.equals_whole, decide_eq_true_eq] at hlength
    rw [← Except.ok.inj h]
    exact hlength.symm
  · cases h

/-- Residuals are refused because they cannot be read or because of their number. -/
theorem fault_of_readResiduals {s : Supplied α} {declared : Setting} {fault : Fault}
    (h : readResiduals s declared = .error fault) :
    s = .unreadable fault ∨ ∃ cause, fault = .size cause := by
  rcases Except.bind_eq_error_iff.1 h with h | ⟨entries, -, h⟩
  · exact Or.inl (eq_unreadable_of_entries h)
  · split at h
    · cases h
    · exact Or.inr ⟨_, (Except.error.inj h).symm⟩

/-- A matrix of the declared shape is read as it is. -/
theorem readMatrix_of_shape {t : Tensor α} {m n : ℕ} (h : t.shape = [m, n]) (name : String) :
    readMatrix (.array t) (.count m) (.count n) name = .ok t := by
  have hflat : isFlatMatrix t (.count m) (.count n) = .ok false := by
    simp only [isFlatMatrix, h]
    rfl
  have hmatrix : isMatrix t (.count m) (.count n) = true := by simp [isMatrix, h]
  unfold readMatrix
  rw [Supplied.read_array]
  show (isFlatMatrix t (.count m) (.count n) >>= _) = _
  rw [hflat]
  show (if isMatrix t (.count m) (.count n) = true then _ else _) = _
  rw [if_pos hmatrix]
  rfl

/-! ### Sizes and spaces -/

omit [Scalar α] in
/-- Block sizes are accepted as they are, and there is one at least. -/
theorem of_checkSizes {sizes accepted : List ℤ} (h : checkSizes sizes = .ok accepted) :
    accepted = sizes ∧ sizes ≠ [] := by
  unfold checkSizes at h
  split at h
  · cases h
  · rename_i hne
    refine ⟨?_, by simpa using hne⟩
    split at h
    · cases h
    · exact (Except.ok.inj h).symm

omit [Scalar α] in
/-- Declared block sizes that are integers are accepted as they are, and there is one at least. -/
theorem readSizes_whole {sizes accepted : List ℤ}
    (h : readSizes (sizes.map Setting.whole) = .ok accepted) : accepted = sizes ∧ sizes ≠ [] := by
  obtain ⟨read, hread, hcheck⟩ := Except.bind_eq_ok_iff.1 h
  obtain rfl : read = sizes := by
    refine List.ext_getElem ?_ fun k hk hk' => ?_
    · simpa using (Except.mapM_eq_ok_iff.1 hread).length_eq.symm
    · have hone := (Except.mapM_eq_ok_iff_getElem.1 hread).2 k (by simpa using hk') hk
      rw [List.getElem_map, Setting.toInt_whole] at hone
      exact (Except.ok.inj hone).symm
  exact of_checkSizes hcheck

omit [Scalar α] in
/-- Each block size that is accepted is the integer that was declared for its place. -/
theorem toInt_of_readSizes {sizes : List Setting} {accepted : List ℤ}
    (h : readSizes sizes = .ok accepted) {k : ℕ} {n : ℤ} (hk : accepted[k]? = some n) :
    ∃ s, sizes[k]? = some s ∧ s.toInt = .ok n := by
  obtain ⟨read, hread, hcheck⟩ := Except.bind_eq_ok_iff.1 h
  obtain ⟨rfl, -⟩ := of_checkSizes hcheck
  obtain ⟨hl, hone⟩ := Except.mapM_eq_ok_iff_getElem.1 hread
  obtain ⟨hlt, rfl⟩ := List.getElem?_eq_some_iff.1 hk
  exact ⟨_, List.getElem?_eq_getElem (hl ▸ hlt), hone k (hl ▸ hlt) hlt⟩

omit [Scalar α] in
/-- Declared block sizes that are accepted are positive. -/
theorem pos_of_checkSizes {sizes accepted : List ℤ} (h : checkSizes sizes = .ok accepted) :
    ∀ n ∈ accepted, 0 < n := by
  unfold checkSizes at h
  split at h
  · cases h
  · split at h
    · cases h
    · rename_i hfind
      obtain rfl := Except.ok.inj h
      intro n hn
      rw [← List.zipIdx_map_fst 0 sizes] at hn
      obtain ⟨p, hp, rfl⟩ := List.mem_map.1 hn
      simpa using List.find?_eq_none.1 hfind p hp

namespace BlockSpace

omit [Scalar α]

theorem of_fit {k : ℕ} {size : Setting} {manifold : Option (Manifold σ α)}
    {space : BlockSpace σ α} (h : fit k size manifold = .ok space) :
    space.size = size ∧ space.manifold = manifold := by
  cases manifold with
  | none =>
      obtain rfl := Except.ok.inj h
      exact ⟨rfl, rfl⟩
  | some m =>
      rw [fit] at h
      split at h
      · split at h
        · obtain rfl := Except.ok.inj h
          exact ⟨rfl, rfl⟩
        · cases h
        · cases h
      · cases h

/-- The manifold that is given for a block, if there is one. -/
def givenAt (manifolds : Option (List (Option (Manifold σ α)))) (k : ℕ) :
    Option (Manifold σ α) :=
  (manifolds.bind fun given => given[k]?).join

/-- Each space has the size that is declared for its place, and the manifold that is given. -/
theorem getElem_fitAll {manifolds : Option (List (Option (Manifold σ α)))} {sizes : List Setting}
    {spaces : List (BlockSpace σ α)} (h : fitAll manifolds sizes = .ok spaces) :
    spaces.length = sizes.length ∧ ∀ k (hk : k < spaces.length) (hs : k < sizes.length),
      spaces[k].size = sizes[k] ∧ spaces[k].manifold = givenAt manifolds k := by
  cases manifolds with
  | none =>
      obtain rfl := Except.ok.inj h
      refine ⟨List.length_map _, fun k hk hs => ?_⟩
      rw [List.getElem_map]
      exact ⟨rfl, rfl⟩
  | some given =>
      unfold fitAll at h
      simp only [] at h
      split at h
      · rename_i hlen
        obtain ⟨hl, hfit⟩ := Except.mapM_eq_ok_iff_getElem.1 h
        simp only [List.length_zipIdx, List.length_zip, hlen, Nat.min_self] at hl
        refine ⟨hl.symm, fun k hk hs => ?_⟩
        have hone := hfit k (by simpa [hlen, hl] using hk) hk
        simp only [List.getElem_zipIdx, List.getElem_zip] at hone
        obtain ⟨hsize, hmanifold⟩ := of_fit hone
        refine ⟨hsize, hmanifold.trans ?_⟩
        simp [givenAt, List.getElem?_eq_getElem (hlen ▸ hs)]
      · cases h

/-- The spaces have the declared sizes, and their manifolds are those that were given. -/
theorem of_fitAll {manifolds : Option (List (Option (Manifold σ α)))} {sizes : List Setting}
    {spaces : List (BlockSpace σ α)} (h : fitAll manifolds sizes = .ok spaces) :
    spaces.map (·.size) = sizes ∧
      ∀ space ∈ spaces, ∀ m ∈ space.manifold, ∃ given, manifolds = some given ∧ some m ∈ given := by
  obtain ⟨hl, hspace⟩ := getElem_fitAll h
  refine ⟨List.ext_getElem (by simp [hl]) fun k hk hk' => ?_, fun space hs m hm => ?_⟩
  · rw [List.getElem_map]
    exact (hspace k (by simpa using hk) hk').1
  · obtain ⟨k, hk, rfl⟩ := List.getElem_of_mem hs
    rw [(hspace k hk (hl ▸ hk)).2, givenAt] at hm
    cases manifolds with
    | none => cases hm
    | some given =>
        refine ⟨given, rfl, ?_⟩
        exact List.mem_of_getElem? (Option.join_eq_some_iff.1 hm)

end BlockSpace

end JacobianAudit
