import Mathlib.Data.List.Nodup
import Mathlib.Data.List.Perm.Subperm
import PasswordPolicy.Policy.Basic

/-!
# Agreement and rearrangement

The alphabets of a table are distinct, so two tables of one size of which each finds the
rules of the other have the same rules (`agrees_iff_perm`). It comes to the same that they
find the same rule for every alphabet (`agrees_iff_find?_eq`).
-/

namespace PasswordPolicy

namespace RuleTable

theorem nodup_rules (t : RuleTable) : t.rules.Nodup :=
  List.Nodup.of_map _ t.distinct

theorem agrees_iff_perm {s t : RuleTable} : s.agrees t = true ↔ s.rules.Perm t.rules := by
  rw [agrees, Bool.and_eq_true, beq_iff_eq, List.all_eq_true]
  constructor
  · rintro ⟨hsize, hfind⟩
    have hsubset : s.rules ⊆ t.rules := by
      intro r hr
      exact (find?_eq_some_iff.1 (beq_iff_eq.1 (hfind r hr))).1
    exact (List.subperm_of_subset s.nodup_rules hsubset).perm_of_length_le (Nat.le_of_eq hsize.symm)
  · intro h
    refine ⟨h.length_eq, ?_⟩
    intro r hr
    exact beq_iff_eq.2 (find?_eq_some_iff.2 ⟨h.mem_iff.1 hr, rfl⟩)

theorem mem_rules_iff_find? {t : RuleTable} {r : Rule} :
    r ∈ t.rules ↔ t.find? r.alphabet = some r := by
  rw [find?_eq_some_iff, and_iff_left rfl]

/-- Tables agree when they find the same rule for every alphabet. -/
theorem agrees_iff_find?_eq {s t : RuleTable} :
    s.agrees t = true ↔ ∀ a, s.find? a = t.find? a := by
  rw [agrees_iff_perm, List.perm_ext_iff_of_nodup s.nodup_rules t.nodup_rules]
  constructor
  · intro h a
    refine Option.ext fun r => ?_
    rw [find?_eq_some_iff, find?_eq_some_iff, h r]
  · intro h r
    rw [mem_rules_iff_find?, mem_rules_iff_find?, h]

end RuleTable

namespace Policy

theorem agrees_iff_perm {p q : Policy} :
    p.agrees q = true ↔ p.length = q.length ∧ p.rules.Perm q.rules := by
  rw [agrees, Bool.and_eq_true, beq_iff_eq, RuleTable.agrees_iff_perm]
  rfl

theorem agrees_iff_find?_eq {p q : Policy} :
    p.agrees q = true ↔ p.length = q.length ∧ ∀ a, p.table.find? a = q.table.find? a := by
  rw [agrees, Bool.and_eq_true, beq_iff_eq, RuleTable.agrees_iff_find?_eq]

end Policy

end PasswordPolicy
