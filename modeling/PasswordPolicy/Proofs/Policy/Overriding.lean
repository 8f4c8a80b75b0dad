import PasswordPolicy.Policy.Overrides
import PasswordPolicy.Proofs.Fallible
import PasswordPolicy.Proofs.Rule.Pushing

/-!
# What overrides make of a policy

Overrides that apply set the length, if they give one, and push their rules
(`override_eq_ok_iff`). So the rule for an alphabet is the last one that the overrides have for
it, and a further rule for a standard class prevails over the range given for the class
(`Overwrites`). The alphabets of the policy stay where they are, and the others come after them
in the order in which they are first named.

Rules that were pushed are found in their places when they are pushed again, so the table does
not change (`RuleTable.pushAll_pushAll_self`), and neither does the policy when the overrides
are applied again (`override_of_override`). As a run of edits they are edits like any other
(`override_eq_foldlM`).
-/

namespace PasswordPolicy

namespace RuleTable

theorem filterMap_find?_map_alphabet (t : RuleTable) :
    (t.rules.map Rule.alphabet).filterMap t.find? = t.rules := by
  have hfind : ∀ r ∈ t.rules, (t.find? ∘ Rule.alphabet) r = some r :=
    fun r hr => find?_eq_some_iff.2 ⟨hr, rfl⟩
  rw [List.filterMap_map, List.filterMap_congr hfind, List.filterMap_some]

/-- A table is known by the order of its alphabets and the rule that it finds for each. -/
theorem ext_find? {s t : RuleTable} (horder : s.rules.map Rule.alphabet = t.rules.map Rule.alphabet)
    (hfind : ∀ a, s.find? a = t.find? a) : s = t := by
  refine ext_rules ?_
  rw [← s.filterMap_find?_map_alphabet, ← t.filterMap_find?_map_alphabet, horder, funext hfind]

/-- The alphabets of a table stay in front, and those that are named for the first time follow. -/
theorem map_alphabet_pushAll_eq_append (t : RuleTable) (rs : List Rule) :
    (t.pushAll rs).rules.map Rule.alphabet = t.rules.map Rule.alphabet ++
      ((rs.map Rule.alphabet).filter (· ∉ t.rules.map Rule.alphabet)).eraseDups := by
  rw [map_alphabet_pushAll, List.eraseDups_append, eraseDups_of_nodup t.distinct, List.removeAll]
  simp only [List.elem_eq_mem, decide_not]

/-- Rules that were pushed change nothing when they are pushed again. -/
theorem pushAll_pushAll_self (t : RuleTable) (rs : List Rule) :
    (t.pushAll rs).pushAll rs = t.pushAll rs := by
  refine ext_find? ?_ fun a => ?_
  · have hnamed : (rs.map Rule.alphabet).filter
        (· ∉ (t.pushAll rs).rules.map Rule.alphabet) = [] := by
      rw [List.filter_eq_nil_iff, map_alphabet_pushAll]
      intro a ha hnew
      exact of_decide_eq_true hnew (List.mem_eraseDups.2 (List.mem_append_right _ ha))
    rw [map_alphabet_pushAll_eq_append, hnamed]
    exact List.append_nil _
  · rw [find?_pushAll, find?_pushAll, ← Option.or_assoc, Option.or_self]

end RuleTable

namespace Overrides

/-- The rules of overrides: one for each standard class for which there is a range, in the usual
order of the classes, then the further rules as they are listed. -/
theorem rules_eq (o : Overrides) :
    o.rules = [o.upper.map fun i => ⟨i, .ofClass .upper⟩, o.lower.map fun i => ⟨i, .ofClass .lower⟩,
      o.number.map fun i => ⟨i, .ofClass .number⟩,
      o.symbol.map fun i => ⟨i, .ofClass .symbol⟩].filterMap id ++ o.custom := rfl

end Overrides

namespace Policy

variable {p q : Policy} {o : Overrides}

theorem replaceLength_eq_ok_iff {n : Option Int} :
    p.replaceLength n = .ok q ↔ (q.length : Int) = n.getD p.length ∧ q.table = p.table := by
  cases n with
  | none =>
      rw [replaceLength, Except.ok.injEq, Option.getD_none, Int.ofNat_inj]
      constructor
      · rintro rfl
        exact ⟨rfl, rfl⟩
      · rintro ⟨hlength, htable⟩
        exact ext_parts hlength.symm htable.symm
  | some n =>
      rw [replaceLength, withLength?, map_eq_ok_iff, Option.getD_some, checkLength]
      constructor
      · rintro ⟨m, hm, rfl⟩
        split at hm
        next => cases hm
        next hn =>
          cases hm
          exact ⟨Int.toNat_of_nonneg (Int.not_lt.1 hn), rfl⟩
      · rintro ⟨rfl, htable⟩
        exact ⟨q.length, by simp, ext_parts rfl htable.symm⟩

/-- Overrides that apply set the length, if they give one, and push their rules. -/
theorem override_eq_ok_iff : p.override o = .ok q ↔
    (q.length : Int) = o.length.getD p.length ∧ q.table = p.table.pushAll o.rules := by
  rw [override, map_eq_ok_iff]
  constructor
  · rintro ⟨m, hm, rfl⟩
    obtain ⟨hlength, htable⟩ := replaceLength_eq_ok_iff.1 hm
    rw [length_pushAll, table_pushAll, htable]
    exact ⟨hlength, rfl⟩
  · rintro ⟨hlength, htable⟩
    refine ⟨⟨q.length, p.table⟩, replaceLength_eq_ok_iff.2 ⟨hlength, rfl⟩, ?_⟩
    refine ext_parts (length_pushAll _ _) ?_
    rw [table_pushAll, htable]

/-- What overrides make of a policy. -/
structure Overwrites (p : Policy) (o : Overrides) (q : Policy) : Prop where
  length : (q.length : Int) = o.length.getD p.length
  /-- The rule for an alphabet is the last one that the overrides have for it. -/
  found : ∀ a, q.table.find? a = (o.rules.reverse.find? (·.alphabet = a)).or (p.table.find? a)
  /-- A further rule prevails, also where it is for a standard class. -/
  prevails : ∀ a r, o.custom.reverse.find? (·.alphabet = a) = some r → q.table.find? a = some r
  /-- The alphabets of the policy stay where they are, and those that are named for the first
  time come after them. -/
  order : q.rules.map Rule.alphabet = p.rules.map Rule.alphabet ++
    ((o.rules.map Rule.alphabet).filter (· ∉ p.rules.map Rule.alphabet)).eraseDups

theorem overwrites_of_override (h : p.override o = .ok q) : p.Overwrites o q := by
  obtain ⟨hlength, htable⟩ := override_eq_ok_iff.1 h
  have hfound : ∀ a, q.table.find? a =
      (o.rules.reverse.find? (·.alphabet = a)).or (p.table.find? a) := by
    intro a
    rw [htable, RuleTable.find?_pushAll]
  refine ⟨hlength, hfound, fun a r hr => ?_, ?_⟩
  · rw [hfound, Overrides.rules, List.reverse_append, List.find?_append, hr]
    rfl
  · rw [rules, htable]
    exact RuleTable.map_alphabet_pushAll_eq_append p.table o.rules

/-- Overrides change nothing when they are applied again. -/
theorem override_of_override (h : p.override o = .ok q) : q.override o = .ok q := by
  obtain ⟨hlength, htable⟩ := override_eq_ok_iff.1 h
  refine override_eq_ok_iff.2 ⟨?_, ?_⟩
  · cases hn : o.length with
    | none => rfl
    | some n => rw [hlength, hn, Option.getD_some, Option.getD_some]
  · rw [htable, RuleTable.pushAll_pushAll_self]

end Policy

/-- The edit that pushes a rule. -/
def Edit.ofRule (r : Rule) : Edit := .bound r.alphabet r.range.toDraft

namespace Overrides

/-- The edits that overrides come to: the length, the classes in their usual order, then the
further rules. -/
def edits (o : Overrides) : List Edit :=
  (o.length.map Edit.length).toList ++
    [o.upper.map fun r => Edit.upper r.toDraft, o.lower.map fun r => Edit.lower r.toDraft,
      o.number.map fun r => Edit.number r.toDraft,
      o.symbol.map fun r => Edit.symbol r.toDraft].filterMap id ++
    o.custom.map Edit.ofRule

/-- All edits but that of the length push the rules in their order. -/
theorem edits_eq (o : Overrides) :
    o.edits = (o.length.map Edit.length).toList ++ o.rules.map Edit.ofRule := by
  rw [edits, rules_eq, List.map_append, List.map_filterMap, List.append_assoc]
  simp only [List.filterMap_cons, List.filterMap_nil, id_eq, Option.map_map]
  rfl

end Overrides

namespace Policy

variable {p : Policy} {o : Overrides}

theorem edit_ofRule (p : Policy) (r : Rule) : p.edit (.ofRule r) = .ok (p.push r) := by
  rw [Edit.ofRule, edit_bound, CountRange.build_toDraft]
  rfl

theorem foldlM_edit_ofRule (p : Policy) (rs : List Rule) :
    (rs.map Edit.ofRule).foldlM edit p = .ok (p.pushAll rs) := by
  induction rs generalizing p with
  | nil => rfl
  | cons r rs ih =>
      rw [List.map_cons, List.foldlM_cons, edit_ofRule]
      exact ih (p.push r)

/-- To override is to make the edits one after the other. -/
theorem override_eq_foldlM (p : Policy) (o : Overrides) :
    p.override o = o.edits.foldlM edit p := by
  have hlength : (o.length.map Edit.length).toList.foldlM edit p = p.replaceLength o.length := by
    cases o.length with
    | none => rfl
    | some n =>
        rw [Option.map_some, Option.toList_some, List.foldlM_cons, replaceLength]
        exact bind_pure _
  rw [Overrides.edits_eq, List.foldlM_append, hlength, override]
  simp only [foldlM_edit_ofRule]
  cases p.replaceLength o.length <;> rfl

end Policy

end PasswordPolicy
