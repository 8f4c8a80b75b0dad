import PasswordPolicy.KeyedList
import PasswordPolicy.Rule.Basic

/-!
# Rule tables

A rule table holds at most one rule for an alphabet, in a fixed order. Pushing a
rule for an alphabet that is present replaces the rule there in its position
(`rules_push_of_mem`); a rule for a new alphabet goes to the end
(`rules_push_of_not_mem`). Either way the table then finds the rule, and finds for
every other alphabet what it found before (`find?_push`).

Two tables agree when they find the same rules, in whatever order.
-/

namespace PasswordPolicy

/-- At most one rule for an alphabet, in a fixed order. -/
structure RuleTable where
  rules : List Rule
  distinct : (rules.map Rule.alphabet).Nodup

namespace RuleTable

@[ext] theorem ext_rules {s t : RuleTable} (h : s.rules = t.rules) : s = t := by
  cases s; cases t; simp_all

def empty : RuleTable := ⟨[], List.nodup_nil⟩

/-- The table with one more rule, in place of the one for its alphabet if there
is one. -/
def push (t : RuleTable) (r : Rule) : RuleTable :=
  ⟨KeyedList.place Rule.alphabet r t.rules, KeyedList.nodup_place Rule.alphabet t.distinct⟩

/-- The table with more rules, pushed one after the other. -/
def pushAll (t : RuleTable) (rs : List Rule) : RuleTable := rs.foldl push t

def ofList (rs : List Rule) : RuleTable := empty.pushAll rs

/-- The rule for an alphabet, if there is one. -/
def find? (t : RuleTable) (a : Alphabet) : Option Rule :=
  KeyedList.find? Rule.alphabet a t.rules

def contains (t : RuleTable) (a : Alphabet) : Bool := (t.find? a).isSome

def size (t : RuleTable) : Nat := t.rules.length

/-- Whether two tables have the same rules, in whatever order. -/
def agrees (s t : RuleTable) : Bool :=
  s.size == t.size && s.rules.all fun r => t.find? r.alphabet == some r

/-- The text of a table: its rules, each after a separator. -/
def text (t : RuleTable) : Text :=
  t.rules.flatMap fun r => '/' :: '/' :: r.text

theorem rules_push_of_not_mem {t : RuleTable} {r : Rule}
    (h : r.alphabet ∉ t.rules.map Rule.alphabet) :
    (t.push r).rules = t.rules ++ [r] :=
  KeyedList.place_of_not_mem Rule.alphabet h

/-- A rule for an alphabet that is present moves no alphabet. -/
theorem rules_push_of_mem {t : RuleTable} {r : Rule}
    (h : r.alphabet ∈ t.rules.map Rule.alphabet) :
    (t.push r).rules.map Rule.alphabet = t.rules.map Rule.alphabet :=
  KeyedList.map_key_place_of_mem Rule.alphabet h

theorem find?_push (t : RuleTable) (r : Rule) (a : Alphabet) :
    (t.push r).find? a = if r.alphabet = a then some r else t.find? a :=
  KeyedList.find?_place Rule.alphabet r t.rules a

theorem pushAll_nil (t : RuleTable) : t.pushAll [] = t := rfl

theorem pushAll_cons (t : RuleTable) (r : Rule) (rs : List Rule) :
    t.pushAll (r :: rs) = (t.push r).pushAll rs := rfl

theorem pushAll_append (t : RuleTable) (rs ss : List Rule) :
    t.pushAll (rs ++ ss) = (t.pushAll rs).pushAll ss :=
  List.foldl_append

/-- Rules for distinct new alphabets are appended in their order. -/
theorem rules_pushAll {t : RuleTable} {rs : List Rule}
    (h : ((t.rules ++ rs).map Rule.alphabet).Nodup) :
    (t.pushAll rs).rules = t.rules ++ rs := by
  induction rs generalizing t with
  | nil => simp [pushAll_nil]
  | cons r rs ih =>
    have hr : r.alphabet ∉ t.rules.map Rule.alphabet := by
      intro hm
      rw [List.map_append, List.map_cons, List.nodup_append] at h
      exact h.2.2 _ hm _ (by simp) rfl
    have hp := rules_push_of_not_mem hr
    rw [pushAll_cons, ih (by simpa [hp] using h), hp]
    simp

/-- Rules for distinct alphabets are the rules of their table. -/
theorem rules_ofList_of_nodup {rs : List Rule} (h : (rs.map Rule.alphabet).Nodup) :
    (ofList rs).rules = rs :=
  rules_pushAll (t := empty) h

/-- The rules of a table make the table. -/
theorem ofList_rules (t : RuleTable) : ofList t.rules = t :=
  ext_rules (rules_ofList_of_nodup t.distinct)

/-- A table finds exactly its rules. -/
theorem find?_eq_some_iff {t : RuleTable} {a : Alphabet} {r : Rule} :
    t.find? a = some r ↔ r ∈ t.rules ∧ r.alphabet = a :=
  KeyedList.find?_eq_some_iff Rule.alphabet t.distinct

end RuleTable

end PasswordPolicy
