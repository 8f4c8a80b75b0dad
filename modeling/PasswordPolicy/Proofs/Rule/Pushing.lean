import Mathlib.Data.List.Nodup
import PasswordPolicy.Rule.Table

/-!
# What a table holds after rules are pushed

The alphabets of a table stand in the order in which they were first named
(`map_alphabet_pushAll`), and the rule for an alphabet is the last one pushed for it
(`find?_pushAll`). So a rule whose alphabet comes again loses its range and keeps its
position, and a rule for an alphabet that has not been named goes to the end
(`rules_ofList_concat`).
-/

namespace PasswordPolicy

theorem eraseDups_of_nodup {α : Type} [BEq α] [LawfulBEq α] {xs : List α} (h : xs.Nodup) :
    xs.eraseDups = xs := by
  induction xs with
  | nil => rfl
  | cons x xs ih =>
      obtain ⟨hx, hxs⟩ := List.nodup_cons.1 h
      have hkeep : xs.filter (fun y => !y == x) = xs := by
        rw [List.filter_eq_self]
        intro y hy
        have hne : y ≠ x := fun he => hx (he ▸ hy)
        simpa using hne
      rw [List.eraseDups_cons, hkeep, ih hxs]

/-- A value that comes again makes no difference to the order of first occurrences. -/
theorem eraseDups_append_cons_of_mem {α : Type} [BEq α] [LawfulBEq α] {x : α} {xs : List α}
    (h : x ∈ xs) (ys : List α) : (xs ++ x :: ys).eraseDups = (xs ++ ys).eraseDups := by
  have hdrop : (x :: ys).removeAll xs = ys.removeAll xs := by
    simp [List.removeAll, h]
  rw [List.eraseDups_append, List.eraseDups_append, hdrop]

namespace RuleTable

variable {r : Rule} {rs : List Rule}

/-- The alphabets of a table stand in the order in which they were first named. -/
theorem map_alphabet_pushAll (t : RuleTable) (rs : List Rule) :
    (t.pushAll rs).rules.map Rule.alphabet =
      (t.rules.map Rule.alphabet ++ rs.map Rule.alphabet).eraseDups := by
  induction rs generalizing t with
  | nil => simpa [pushAll_nil] using (eraseDups_of_nodup t.distinct).symm
  | cons r rs ih =>
      rw [pushAll_cons, ih, List.map_cons]
      by_cases h : r.alphabet ∈ t.rules.map Rule.alphabet
      · rw [rules_push_of_mem h, eraseDups_append_cons_of_mem h]
      · rw [rules_push_of_not_mem h, List.map_append, List.append_assoc]
        rfl

/-- The rule for an alphabet is the last one pushed for it. -/
theorem find?_pushAll (t : RuleTable) (rs : List Rule) (a : Alphabet) :
    (t.pushAll rs).find? a = (rs.reverse.find? (·.alphabet = a)).or (t.find? a) := by
  induction rs generalizing t with
  | nil => rfl
  | cons r rs ih =>
      rw [pushAll_cons, ih, find?_push, List.reverse_cons, List.find?_append, Option.or_assoc]
      congr 1
      by_cases h : r.alphabet = a
      · simp [h]
      · simp [h]

theorem mem_of_mem_rules_pushAll {t : RuleTable} (h : r ∈ (t.pushAll rs).rules) :
    r ∈ t.rules ∨ r ∈ rs := by
  have hfind := find?_eq_some_iff.2 ⟨h, rfl⟩
  rw [find?_pushAll, Option.or_eq_some_iff] at hfind
  rcases hfind with hfind | ⟨-, hfind⟩
  · exact Or.inr (List.mem_reverse.1 (List.mem_of_find?_eq_some hfind))
  · exact Or.inl (find?_eq_some_iff.1 hfind).1

theorem map_alphabet_ofList (rs : List Rule) :
    (ofList rs).rules.map Rule.alphabet = (rs.map Rule.alphabet).eraseDups :=
  map_alphabet_pushAll empty rs

theorem find?_ofList (rs : List Rule) (a : Alphabet) :
    (ofList rs).find? a = rs.reverse.find? (·.alphabet = a) := by
  rw [ofList, find?_pushAll]
  exact Option.or_none

theorem mem_of_mem_rules_ofList (h : r ∈ (ofList rs).rules) : r ∈ rs :=
  (mem_of_mem_rules_pushAll h).resolve_left List.not_mem_nil

theorem ofList_append (rs ss : List Rule) : ofList (rs ++ ss) = (ofList rs).pushAll ss :=
  pushAll_append empty rs ss

/-- A rule for an alphabet that has not been named goes to the end. -/
theorem rules_ofList_concat (h : r.alphabet ∉ rs.map Rule.alphabet) :
    (ofList (rs ++ [r])).rules = (ofList rs).rules ++ [r] := by
  rw [ofList_append]
  refine rules_push_of_not_mem ?_
  intro hr
  obtain ⟨s, hs, hsame⟩ := List.mem_map.1 hr
  exact h (List.mem_map.2 ⟨s, mem_of_mem_rules_ofList hs, hsame⟩)

end RuleTable

end PasswordPolicy
