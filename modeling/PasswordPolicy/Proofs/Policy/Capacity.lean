import Mathlib.Algebra.BigOperators.Group.Finset.Basic
import Mathlib.Algebra.GroupWithZero.Nat
import PasswordPolicy.Policy.Feasibility

/-!
# What bounds allow together

A list of bounds covers a number when their total is not below it, or when one of them is
missing. This is the upper half of what makes a policy feasible. It does not depend on
the order of the bounds (`Covers.perm`), a bound can be taken off at the price of what it
allows (`covers_cons_some_iff`), and bounds cover any counts that respect them one by one
(`covers_sum`).
-/

namespace PasswordPolicy

/-- A rule with an empty alphabet can be met if it asks for nothing. -/
theorem Rule.isUnfillable_of_isEmpty {r : Rule} (he : r.alphabet.isEmpty = true) :
    r.isUnfillable = false ↔ r.range.least = 0 := by
  simp [isUnfillable, isRequired, he]

/-- A total does not depend on the order of the bounds. -/
theorem Policy.totalCapacity_perm {ms ns : List (Option Nat)} (h : ms.Perm ns) :
    totalCapacity ms = totalCapacity ns := by
  induction h with
  | nil => rfl
  | cons m _ ih =>
      cases m with
      | none => rfl
      | some m => rw [totalCapacity, totalCapacity, ih]
  | swap m n ms =>
      cases m with
      | none => cases n <;> rfl
      | some m =>
          cases n with
          | none => rfl
          | some n =>
              simp only [totalCapacity, Option.map_map, Function.comp_def, Nat.add_left_comm]
  | trans _ _ ih₁ ih₂ => exact ih₁.trans ih₂

/-- Bounds that together allow a number of characters. -/
def Covers (ms : List (Option Nat)) (n : Nat) : Prop :=
  ∀ k, Policy.totalCapacity ms = some k → n ≤ k

theorem covers_nil_iff {n : Nat} : Covers [] n ↔ n = 0 := by
  simp [Covers, Policy.totalCapacity]

theorem covers_cons_none (ms : List (Option Nat)) (n : Nat) : Covers (none :: ms) n := by
  simp [Covers, Policy.totalCapacity]

theorem covers_cons_some_iff {m : Nat} {ms : List (Option Nat)} {n : Nat} :
    Covers (some m :: ms) n ↔ Covers ms (n - m) := by
  simp only [Covers, Policy.totalCapacity, Option.map_eq_some_iff, forall_exists_index, and_imp,
    forall_apply_eq_imp_iff₂]
  constructor
  · intro h k hk
    exact Nat.sub_le_iff_le_add'.2 (h k hk)
  · intro h k hk
    exact Nat.sub_le_iff_le_add'.1 (h k hk)

theorem Covers.perm {ms ns : List (Option Nat)} (h : ms.Perm ns) {n : Nat} :
    Covers ms n ↔ Covers ns n := by
  rw [Covers, Covers, Policy.totalCapacity_perm h]

/-- Bounds cover the total of counts that respect them. -/
theorem covers_sum {α : Type} {bound : α → Option Nat} {count : α → Nat} {xs : List α}
    (h : ∀ x ∈ xs, ∀ m, bound x = some m → count x ≤ m) :
    Covers (xs.map bound) (xs.map count).sum := by
  induction xs with
  | nil => exact covers_nil_iff.2 rfl
  | cons x xs ih =>
      have hrest := ih fun y hy => h y (List.mem_cons_of_mem x hy)
      rw [List.map_cons, List.map_cons, List.sum_cons]
      cases hm : bound x with
      | none => exact covers_cons_none _ _
      | some m =>
          have hx : count x ≤ m := h x (List.mem_cons_self ..) m hm
          rw [covers_cons_some_iff]
          intro k hk
          have := hrest k hk
          omega

/-- The counts of distinct values that include all entries of a list add up to its
length. -/
theorem sum_map_count {α : Type} [DecidableEq α] {values xs : List α} (hd : values.Nodup)
    (h : ∀ x ∈ xs, x ∈ values) : (values.map fun v => xs.count v).sum = xs.length := by
  have hmem : ∀ x ∈ (xs : Multiset α), x ∈ values.toFinset := by
    intro x hx
    exact List.mem_toFinset.2 (h x hx)
  have hcard := Multiset.sum_count_eq_card hmem
  rw [List.sum_toFinset _ hd] at hcard
  simpa using hcard

end PasswordPolicy
