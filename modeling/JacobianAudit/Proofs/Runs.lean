/-
**Runs that answer.**

Most statements about a probe start from a run that answered with a value and ask what every step
of it answered. This module takes such runs apart: a sequence answers exactly when both parts do,
and a list of questions is answered exactly when each of them is.

Main results:

* `JacobianAudit.Except.bind_eq_ok_iff`, `JacobianAudit.Except.mapM_eq_ok_iff` — answers without a
  world;
* `JacobianAudit.Action.perform_bind_eq_ok_iff` — a sequence of actions;
* `JacobianAudit.Action.perform_attempt_bind` — a fault as a value.
-/

import Mathlib.Data.List.Forall2
import JacobianAudit.Action

set_option autoImplicit false

namespace JacobianAudit

/-- A pair of which the first part is known. -/
theorem eq_mk_of_fst {β γ : Type} {p : β × γ} {x : β} (h : p.1 = x) : p = (x, p.2) := by
  rw [← h]

/-- What is on the right has a partner on the left. -/
theorem exists_of_forall₂_mem {β γ : Type} {r : β → γ → Prop} {xs : List β} {ys : List γ}
    (h : List.Forall₂ r xs ys) {y : γ} (hy : y ∈ ys) : ∃ x ∈ xs, r x y := by
  induction h with
  | nil => cases hy
  | cons hr _ ih =>
      rcases List.mem_cons.1 hy with rfl | hy
      · exact ⟨_, List.mem_cons_self, hr⟩
      · obtain ⟨x, hx, hr⟩ := ih hy
        exact ⟨x, List.mem_cons_of_mem _ hx, hr⟩

/-- A block in the place of another one of its size leaves the sizes as they are. -/
theorem map_length_set {β : Type} {blocks : List (List β)} {k : ℕ} {block moved : List β}
    (hk : blocks[k]? = some block) (h : moved.length = block.length) :
    (blocks.set k moved).map List.length = blocks.map List.length := by
  have hsize : (blocks.map List.length)[k]? = some moved.length := by
    rw [List.getElem?_map, hk, Option.map_some, h]
  obtain ⟨_, hsize⟩ := List.getElem?_eq_some_iff.1 hsize
  rw [List.map_set, ← hsize, List.set_getElem_self]

/-- Where everything has a partner there is a list of partners. -/
theorem exists_forall₂ {β γ : Type} {r : β → γ → Prop} {xs : List β}
    (h : ∀ x ∈ xs, ∃ y, r x y) : ∃ ys, List.Forall₂ r xs ys := by
  induction xs with
  | nil => exact ⟨[], .nil⟩
  | cons x xs ih =>
      obtain ⟨y, hy⟩ := h x List.mem_cons_self
      obtain ⟨ys, hys⟩ := ih fun z hz => h z (List.mem_cons_of_mem x hz)
      exact ⟨y :: ys, .cons hy hys⟩

/-- Where there is something between each pair there is a list between the lists. -/
theorem exists_forall₂_between {β γ δ : Type} {r : β → δ → Prop} {s : δ → γ → Prop} {xs : List β}
    {ys : List γ} (h : List.Forall₂ (fun x y => ∃ z, r x z ∧ s z y) xs ys) :
    ∃ zs, List.Forall₂ r xs zs ∧ List.Forall₂ s zs ys := by
  induction h with
  | nil => exact ⟨[], .nil, .nil⟩
  | cons hz _ ih =>
      obtain ⟨z, hr, hs⟩ := hz
      obtain ⟨zs, hrs, hss⟩ := ih
      exact ⟨z :: zs, .cons hr hrs, .cons hs hss⟩

namespace Except

variable {ε β γ : Type}

theorem bind_eq_ok_iff {x : Except ε β} {f : β → Except ε γ} {y : γ} :
    (x >>= f) = .ok y ↔ ∃ a, x = .ok a ∧ f a = .ok y := by
  cases x with
  | error e => simp [bind, Except.bind]
  | ok a => simp [bind, Except.bind]

theorem bind_eq_error_iff {x : Except ε β} {f : β → Except ε γ} {e : ε} :
    (x >>= f) = .error e ↔ x = .error e ∨ ∃ a, x = .ok a ∧ f a = .error e := by
  cases x with
  | error e => simp [bind, Except.bind]
  | ok a => simp [bind, Except.bind]

theorem map_eq_ok_iff {x : Except ε β} {f : β → γ} {y : γ} :
    x.map f = .ok y ↔ ∃ a, x = .ok a ∧ f a = y := by
  cases x with
  | error e => simp [Except.map]
  | ok a => simp [Except.map]

/-- A list of questions is answered exactly when each question is. -/
theorem mapM_eq_ok_iff {f : β → Except ε γ} {xs : List β} {ys : List γ} :
    xs.mapM f = .ok ys ↔ List.Forall₂ (fun x y => f x = .ok y) xs ys := by
  induction xs generalizing ys with
  | nil =>
      rw [List.mapM_nil, List.forall₂_nil_left_iff]
      exact ⟨fun h => (Except.ok.inj h).symm, fun h => h ▸ rfl⟩
  | cons x xs ih =>
      rw [List.mapM_cons, bind_eq_ok_iff, List.forall₂_cons_left_iff]
      constructor
      · rintro ⟨y, hy, hrest⟩
        obtain ⟨rest, hr, he⟩ := bind_eq_ok_iff.1 hrest
        exact ⟨y, rest, hy, ih.1 hr, (Except.ok.inj he).symm⟩
      · rintro ⟨y, rest, hy, hr, rfl⟩
        exact ⟨y, hy, bind_eq_ok_iff.2 ⟨rest, ih.2 hr, rfl⟩⟩

/-- The same, question by question. -/
theorem mapM_eq_ok_iff_getElem {f : β → Except ε γ} {xs : List β} {ys : List γ} :
    xs.mapM f = .ok ys ↔ xs.length = ys.length ∧
      ∀ i (hx : i < xs.length) (hy : i < ys.length), f xs[i] = .ok ys[i] := by
  rw [mapM_eq_ok_iff, List.forall₂_iff_get]
  rfl

/-- Where each question is answered so is the list, and what is known of each answer stays known. -/
theorem exists_mapM_eq_ok {r : β → γ → Prop} {f : β → Except ε γ} {xs : List β}
    (h : ∀ x ∈ xs, ∃ y, f x = .ok y ∧ r x y) :
    ∃ ys, xs.mapM f = .ok ys ∧ List.Forall₂ r xs ys := by
  obtain ⟨ys, hys⟩ := exists_forall₂ h
  exact ⟨ys, mapM_eq_ok_iff.2 (hys.imp fun _ _ => And.left), hys.imp fun _ _ => And.right⟩

/-- A list of questions fails at a question that fails. -/
theorem exists_of_mapM_eq_error {f : β → Except ε γ} {xs : List β} {e : ε}
    (h : xs.mapM f = .error e) : ∃ x ∈ xs, f x = .error e := by
  induction xs with
  | nil => cases h
  | cons x xs ih =>
      rw [List.mapM_cons] at h
      rcases bind_eq_error_iff.1 h with hx | ⟨y, -, h⟩
      · exact ⟨x, List.mem_cons_self, hx⟩
      · rcases bind_eq_error_iff.1 h with hrest | ⟨ys, -, h⟩
        · obtain ⟨z, hz, hf⟩ := ih hrest
          exact ⟨z, List.mem_cons_of_mem x hz, hf⟩
        · cases h

end Except

namespace Action

variable {σ β γ : Type} {machine : Machine} {w w' : World σ}

/-- Actions that do the same are the same. -/
theorem ext_perform {a b : Action σ β}
    (h : ∀ machine w, a.perform machine w = b.perform machine w) : a = b := by
  funext machine w
  have hperform := h machine w
  unfold perform at hperform
  cases ha : a machine w <;> cases hb : b machine w <;> simp_all

/-- **A sequence answers exactly when both of its parts do.** -/
theorem perform_bind_eq_ok_iff {a : Action σ β} {f : β → Action σ γ} {y : γ} :
    (a >>= f).perform machine w = (.ok y, w') ↔
      ∃ x w₁, a.perform machine w = (.ok x, w₁) ∧ (f x).perform machine w₁ = (.ok y, w') := by
  rw [perform_bind]
  rcases a.perform machine w with ⟨x | x, w₁⟩
  · simp
  · simp

/-- A sequence ends in a fault exactly when one of its parts does. -/
theorem perform_bind_eq_error_iff {a : Action σ β} {f : β → Action σ γ} {fault : Fault} :
    (a >>= f).perform machine w = (.error fault, w') ↔
      a.perform machine w = (.error fault, w') ∨
        ∃ x w₁, a.perform machine w = (.ok x, w₁) ∧
          (f x).perform machine w₁ = (.error fault, w') := by
  rw [perform_bind]
  rcases a.perform machine w with ⟨fault' | x, w₁⟩
  · simp
  · simp

theorem perform_bind_of_ok {a : Action σ β} {f : β → Action σ γ} {x : β}
    (h : a.perform machine w = (.ok x, w')) :
    (a >>= f).perform machine w = (f x).perform machine w' := by
  rw [perform_bind, h]

theorem perform_bind_of_error {a : Action σ β} {f : β → Action σ γ} {fault : Fault}
    (h : a.perform machine w = (.error fault, w')) :
    (a >>= f).perform machine w = (.error fault, w') := by
  rw [perform_bind, h]

/-- An attempt answers with what the action answers with, in either case. -/
theorem perform_attempt_bind {a : Action σ β} {f : Except Fault β → Action σ γ} :
    (a.attempt >>= f).perform machine w =
      (f (a.perform machine w).1).perform machine (a.perform machine w).2 := by
  rw [perform_bind, perform_attempt]

theorem perform_ofExcept_bind {answer : Except Fault β} {f : β → Action σ γ} {x : β}
    (h : answer = .ok x) :
    (ofExcept answer >>= f).perform machine w = (f x).perform machine w := by
  rw [perform_bind, perform_ofExcept, h]

/-- What a sequence answers if its second part needs no world. -/
theorem fst_perform_bind_ofExcept (a : Action σ β) (g : β → Except Fault γ)
    (machine : Machine) (w : World σ) :
    ((a >>= fun x => ofExcept (g x)).perform machine w).1 =
      (a.perform machine w).1 >>= g := by
  rw [perform_bind]
  rcases a.perform machine w with ⟨fault | x, w₁⟩
  · rfl
  · show ((ofExcept (g x)).perform machine w₁).1 = g x
    rw [perform_ofExcept]

theorem perform_read_bind {f : Machine → Action σ γ} :
    ((read : Action σ Machine) >>= f).perform machine w = (f machine).perform machine w := rfl

@[simp] theorem perform_warn (text : String) :
    (warn text : Action σ Unit).perform machine w =
      (.ok (), { w with journal := w.journal ++ [⟨.warning, text⟩] }) := rfl

end Action

end JacobianAudit
