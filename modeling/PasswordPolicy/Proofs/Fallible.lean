import Mathlib.Data.List.Forall2
import PasswordPolicy.Error

/-!
# Computations that may fail

A computation that may fail is described by what its successes and its failures have to
satisfy (`Ends`), so that both are found by going through it once. A computation for each
entry of a list succeeds when each of them does (`mapM_eq_ok_of_forall₂`), and ends as they
do (`ends_mapM`).
-/

namespace PasswordPolicy

variable {α β ε δ : Type} {P Q : α → Prop} {R : β → Prop} {E : ε → Prop}

theorem toOption_eq_some_iff {x : Except ε α} {a : α} :
    x.toOption = some a ↔ x = .ok a := by
  cases x <;> simp [Except.toOption]

theorem map_eq_ok_iff {x : Except ε α} {f : α → β} {b : β} :
    x.map f = .ok b ↔ ∃ a, x = .ok a ∧ f a = b := by
  cases x <;> simp [Except.map]

theorem map_eq_error_iff {x : Except ε α} {f : α → β} {e : ε} :
    x.map f = .error e ↔ x = .error e := by
  cases x <;> simp [Except.map]

theorem bind_eq_error_iff {x : Except ε α} {f : α → Except ε β} {e : ε} :
    x >>= f = .error e ↔ x = .error e ∨ ∃ a, x = .ok a ∧ f a = .error e := by
  cases x with
  | error d => simp [bind, Except.bind]
  | ok a => simp [bind, Except.bind]

/-- What succeeds satisfies `P`, and what fails satisfies `E`. -/
def Ends (P : α → Prop) (E : ε → Prop) : Except ε α → Prop
  | .ok a => P a
  | .error e => E e

theorem ends_of_eq_ok {x : Except ε α} {a : α} (h : x = .ok a) (ha : P a) : Ends P E x := by
  rw [h]
  exact ha

theorem Ends.mono {x : Except ε α} (hx : Ends P E x) (h : ∀ a, P a → Q a) : Ends Q E x := by
  cases x with
  | error e => exact hx
  | ok a => exact h a hx

theorem Ends.mono_error {F : ε → Prop} {x : Except ε α} (hx : Ends P E x) (h : ∀ e, E e → F e) :
    Ends P F x := by
  cases x with
  | error e => exact h e hx
  | ok a => exact hx

theorem Ends.bind {x : Except ε α} {f : α → Except ε β} (hx : Ends P E x)
    (hf : ∀ a, P a → Ends R E (f a)) : Ends R E (x >>= f) := by
  cases x with
  | error e => exact hx
  | ok a => exact hf a hx

/-- A failure that is told in another way. -/
theorem ends_mapError (x : Except δ α) {f : δ → ε} (hf : ∀ e, E (f e)) :
    Ends (fun a => x = .ok a) E (x.mapError f) := by
  cases x with
  | error e => exact hf e
  | ok a => exact rfl

/-- A result of which something else is made, or a failure that is told in another way. -/
theorem ends_map_mapError {x : Except δ α} {f : α → β} {e : δ → ε}
    (hok : ∀ a, x = .ok a → R (f a)) (herror : ∀ d, x = .error d → E (e d)) :
    Ends R E ((x.map f).mapError e) := by
  cases x with
  | error d => exact herror d rfl
  | ok a => exact hok a rfl

theorem ends_mapM {f : α → Except ε β} {xs : List α} (h : ∀ x ∈ xs, Ends R E (f x)) :
    Ends (fun ys => ∀ y ∈ ys, R y) E (xs.mapM f) := by
  induction xs with
  | nil => exact List.forall_mem_nil R
  | cons x xs ih =>
      rw [List.mapM_cons]
      refine (h x (List.mem_cons_self ..)).bind fun y hy => ?_
      refine (ih fun z hz => h z (List.mem_cons_of_mem x hz)).bind fun ys hys => ?_
      exact List.forall_mem_cons.2 ⟨hy, hys⟩

theorem mapM_eq_ok_of_forall₂ {f : α → Except ε β} {xs : List α} {ys : List β}
    (h : List.Forall₂ (fun x y => f x = .ok y) xs ys) : xs.mapM f = .ok ys := by
  induction h with
  | nil => rfl
  | cons hy _ ih =>
      rw [List.mapM_cons, hy, ih]
      rfl

theorem mapM_eq_ok_iff {f : α → Except ε β} {xs : List α} {ys : List β} :
    xs.mapM f = .ok ys ↔ List.Forall₂ (fun x y => f x = .ok y) xs ys := by
  refine ⟨fun h => ?_, mapM_eq_ok_of_forall₂⟩
  induction xs generalizing ys with
  | nil =>
      obtain rfl := Except.ok.inj h
      exact .nil
  | cons x xs ih =>
      rw [List.mapM_cons] at h
      obtain ⟨y, hy, h⟩ := bind_eq_ok_iff.1 h
      obtain ⟨ys, hys, h⟩ := bind_eq_ok_iff.1 h
      obtain rfl := Except.ok.inj h
      exact .cons hy (ih hys)

theorem mapM_singleton_eq_ok_iff {f : α → Except ε β} {x : α} {ys : List β} :
    [x].mapM f = .ok ys ↔ ∃ y, f x = .ok y ∧ ys = [y] := by
  rw [mapM_eq_ok_iff, List.forall₂_cons_left_iff]
  simp

/-- A computation for each entry of a list fails as that for the first entry for which it
fails. -/
theorem mapM_eq_error_iff {f : α → Except ε β} {xs : List α} {e : ε} :
    xs.mapM f = .error e ↔ ∃ x, xs.find? (fun x => !(f x).isOk) = some x ∧ f x = .error e := by
  induction xs with
  | nil => simp [pure, Except.pure]
  | cons x xs ih =>
      rw [List.mapM_cons, bind_eq_error_iff, List.find?_cons]
      cases hx : f x with
      | error d => simp [Except.isOk, Except.toBool, hx]
      | ok y =>
          simp only [reduceCtorEq, false_or, Except.ok.injEq, exists_eq_left', bind_eq_error_iff, ih]
          simp [Except.isOk, Except.toBool, pure, Except.pure]

theorem isOk_of_mapM_eq_ok {f : α → Except ε β} {xs : List α} {ys : List β}
    (h : xs.mapM f = .ok ys) {x : α} (hx : x ∈ xs) : (f x).isOk = true := by
  induction mapM_eq_ok_iff.1 h with
  | nil => cases hx
  | cons hy hys ih =>
      rcases List.mem_cons.1 hx with rfl | hx
      · rw [hy]
        rfl
      · exact ih (mapM_eq_ok_iff.2 hys) hx

/-- Computations that are the same entry by entry are the same for two lists. -/
theorem mapM_congr_of_forall₂ {γ : Type} {f : α → Except ε γ} {g : β → Except ε γ} {xs : List α}
    {ys : List β} (h : List.Forall₂ (fun x y => f x = g y) xs ys) : xs.mapM f = ys.mapM g := by
  induction h with
  | nil => rfl
  | cons hxy _ ih => rw [List.mapM_cons, List.mapM_cons, hxy, ih]

theorem exists_forall₂ {S : α → β → Prop} {xs : List α} (h : ∀ x ∈ xs, ∃ y, S x y) :
    ∃ ys, List.Forall₂ S xs ys := by
  induction xs with
  | nil => exact ⟨[], .nil⟩
  | cons x xs ih =>
      obtain ⟨y, hy⟩ := h x (List.mem_cons_self ..)
      obtain ⟨ys, hys⟩ := ih fun z hz => h z (List.mem_cons_of_mem x hz)
      exact ⟨y :: ys, .cons hy hys⟩

end PasswordPolicy
