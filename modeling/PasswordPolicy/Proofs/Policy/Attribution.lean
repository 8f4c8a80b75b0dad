import Mathlib.Algebra.Order.BigOperators.Group.List
import Mathlib.Algebra.Order.Group.Nat
import Mathlib.Data.List.Perm.Basic
import PasswordPolicy.Policy.Audit
import PasswordPolicy.Proofs.Policy.Capacity

/-!
# Attributing the characters of a password to rules

A text satisfies the rules of a policy when each of its characters can be attributed to a
rule, so that the character is a letter of the rule's alphabet and every rule has as many
characters as it allows. Where alphabets overlap a character has a choice of rules, and
the counts of an audit say less: a rule has at least its least count of letters in the
text (`IsAttribution.least_le_count`), and at most its greatest one if no other alphabet
has a letter in common with its own (`IsAttribution.count_le_most`).

The alphabets of a policy are distinct, so a rule can be named by its alphabet. An
allotment is an attribution to alphabets (`exists_isAttribution_iff`); its alphabets may
be reordered and counted without the rules. A policy with an attribution can be met
(`IsAllotment.isFeasible`).
-/

namespace PasswordPolicy

/-- Each character is a letter of the alphabet in the same position. -/
abbrev Belong : Text → List Alphabet → Prop := List.Forall₂ fun c a => c ∈ a.letters

theorem belong_append_iff {w : Text} {as bs : List Alphabet} :
    Belong w (as ++ bs) ↔ ∃ cs, Belong cs as ∧ ∃ ds, Belong ds bs ∧ w = cs ++ ds := by
  constructor
  · intro h
    exact ⟨_, List.forall₂_take_append w as bs h, _, List.forall₂_drop_append w as bs h,
      (List.take_append_drop _ w).symm⟩
  · rintro ⟨cs, hcs, ds, hds, rfl⟩
    exact List.rel_append hcs hds

theorem isEmpty_of_mem_of_belong {w : Text} {as : List Alphabet} (h : Belong w as) :
    ∀ a ∈ as, a.isEmpty = false := by
  induction h with
  | nil => simp
  | @cons c a w as hc _ ih =>
      intro b hb
      rcases List.mem_cons.1 hb with rfl | hb
      · simpa [Alphabet.isEmpty] using List.ne_nil_of_mem hc
      · exact ih b hb

/-- When the alphabets are reordered, the characters can be reordered with them. -/
theorem exists_perm_belong {w : Text} {as bs : List Alphabet} (h : Belong w as)
    (hp : bs.Perm as) : ∃ w', w.Perm w' ∧ Belong w' bs := by
  obtain ⟨w', hw', hperm⟩ := List.perm_comp_forall₂ hp (List.Forall₂.flip h)
  exact ⟨w', hperm.symm, hw'.flip⟩

/-- When the characters are reordered, the alphabets can be reordered with them. -/
theorem exists_belong_perm {w w' : Text} {as : List Alphabet} (h : Belong w as)
    (hp : w'.Perm w) : ∃ bs, Belong w' bs ∧ bs.Perm as :=
  List.perm_comp_forall₂ hp h

namespace Policy

/-- An attribution of the characters of a text to rules, one rule for each position. -/
structure IsAttribution (p : Policy) (w : Text) (owners : List Rule) : Prop where
  known : ∀ r ∈ owners, r ∈ p.rules
  belongs : Belong w (owners.map Rule.alphabet)
  allowed : ∀ r ∈ p.rules, r.range.allows (owners.count r) = true

/-- The alphabets of the rules in an attribution. -/
structure IsAllotment (p : Policy) (as : List Alphabet) : Prop where
  known : ∀ a ∈ as, a ∈ p.rules.map Rule.alphabet
  allowed : ∀ r ∈ p.rules, r.range.allows (as.count r.alphabet) = true

theorem eq_of_alphabet_eq {p : Policy} {r r' : Rule} (hr : r ∈ p.rules) (hr' : r' ∈ p.rules)
    (h : r.alphabet = r'.alphabet) : r = r' := by
  have hfind := RuleTable.find?_eq_some_iff.2 ⟨hr, h⟩
  rw [RuleTable.find?_eq_some_iff.2 ⟨hr', rfl⟩] at hfind
  exact (Option.some.inj hfind).symm

theorem count_map_alphabet {p : Policy} {owners : List Rule} (h : ∀ r ∈ owners, r ∈ p.rules)
    {r : Rule} (hr : r ∈ p.rules) :
    (owners.map Rule.alphabet).count r.alphabet = owners.count r := by
  rw [List.count, List.count, List.countP_map]
  apply List.countP_congr
  intro o ho
  simp only [Function.comp_apply, beq_iff_eq]
  constructor
  · exact eq_of_alphabet_eq (h o ho) hr
  · rintro rfl
    rfl

theorem exists_map_alphabet_eq {p : Policy} {as : List Alphabet}
    (h : ∀ a ∈ as, a ∈ p.rules.map Rule.alphabet) :
    ∃ owners : List Rule, (∀ r ∈ owners, r ∈ p.rules) ∧ owners.map Rule.alphabet = as := by
  induction as with
  | nil => exact ⟨[], by simp, rfl⟩
  | cons a as ih =>
      obtain ⟨r, hr, rfl⟩ := List.mem_map.1 (h a (List.mem_cons_self ..))
      obtain ⟨owners, ho, rfl⟩ := ih fun b hb => h b (List.mem_cons_of_mem _ hb)
      exact ⟨r :: owners, List.forall_mem_cons.2 ⟨hr, ho⟩, rfl⟩

/-- The characters of a text can be attributed to the rules if they can be attributed to
their alphabets. -/
theorem exists_isAttribution_iff {p : Policy} {w : Text} :
    (∃ owners, p.IsAttribution w owners) ↔ ∃ as, Belong w as ∧ p.IsAllotment as := by
  constructor
  · rintro ⟨owners, h⟩
    refine ⟨owners.map Rule.alphabet, h.belongs, ?_, ?_⟩
    · intro a ha
      obtain ⟨r, hr, rfl⟩ := List.mem_map.1 ha
      exact List.mem_map_of_mem (h.known r hr)
    · intro r hr
      rw [count_map_alphabet h.known hr]
      exact h.allowed r hr
  · rintro ⟨as, hw, h⟩
    obtain ⟨owners, ho, rfl⟩ := exists_map_alphabet_eq h.known
    refine ⟨owners, ho, hw, ?_⟩
    intro r hr
    rw [← count_map_alphabet ho hr]
    exact h.allowed r hr

end Policy

/-- Characters that are attributed to an alphabet are letters of it. -/
theorem count_le_countP_of_belong {w : Text} {as : List Alphabet} (h : Belong w as)
    (a : Alphabet) : as.count a ≤ w.countP (a.letters.contains ·) := by
  induction h with
  | nil => exact Nat.le_refl 0
  | @cons c b w as hc _ ih =>
      rw [List.count_cons, List.countP_cons]
      by_cases hb : b = a
      · subst hb
        simpa [hc] using ih
      · simp only [beq_eq_false_iff_ne.2 hb, Bool.false_eq_true, if_false]
        exact Nat.le_trans ih (Nat.le_add_right _ _)

/-- Letters that no other alphabet has are attributed to their own. -/
theorem countP_le_count_of_belong {w : Text} {as : List Alphabet} (h : Belong w as)
    {a : Alphabet} (ha : ∀ b ∈ as, b ≠ a → a.letters.Disjoint b.letters) :
    w.countP (a.letters.contains ·) ≤ as.count a := by
  induction h with
  | nil => exact Nat.le_refl 0
  | @cons c b w as hc _ ih =>
      have hrest := ih fun b hb => ha b (List.mem_cons_of_mem _ hb)
      rw [List.count_cons, List.countP_cons]
      by_cases hb : b = a
      · subst hb
        simpa [hc] using hrest
      · have hnot : c ∉ a.letters := fun hm => ha b (List.mem_cons_self ..) hb hm hc
        simpa [hnot, hb] using hrest

namespace Policy

namespace IsAttribution

variable {p : Policy} {w : Text} {owners : List Rule}

theorem least_le_count (h : p.IsAttribution w owners) {r : Rule} (hr : r ∈ p.rules) :
    r.range.least ≤ r.count w := by
  have hcount := count_le_countP_of_belong h.belongs r.alphabet
  rw [count_map_alphabet h.known hr] at hcount
  exact Nat.le_trans (CountRange.allows_iff.1 (h.allowed r hr)).1 hcount

theorem count_le_most (h : p.IsAttribution w owners) {r : Rule} (hr : r ∈ p.rules)
    (hapart : ∀ r' ∈ p.rules, r' ≠ r → r.alphabet.letters.Disjoint r'.alphabet.letters)
    {m : Nat} (hm : r.range.most = some m) : r.count w ≤ m := by
  have hcount : r.count w ≤ (owners.map Rule.alphabet).count r.alphabet := by
    apply countP_le_count_of_belong h.belongs
    intro b hb hne
    obtain ⟨r', hr', rfl⟩ := List.mem_map.1 hb
    refine hapart r' (h.known r' hr') ?_
    rintro rfl
    exact hne rfl
  rw [count_map_alphabet h.known hr] at hcount
  exact Nat.le_trans hcount ((CountRange.allows_iff.1 (h.allowed r hr)).2 m hm)

end IsAttribution

namespace IsAllotment

variable {p : Policy} {as : List Alphabet}

theorem perm (h : p.IsAllotment as) {bs : List Alphabet} (hp : as.Perm bs) :
    p.IsAllotment bs where
  known a ha := h.known a (hp.mem_iff.2 ha)
  allowed r hr := by
    rw [← hp.count_eq]
    exact h.allowed r hr

theorem bounds (h : p.IsAllotment as) {r : Rule} (hr : r ∈ p.rules) :
    r.range.least ≤ as.count r.alphabet ∧
      ∀ m, r.range.most = some m → as.count r.alphabet ≤ m :=
  CountRange.allows_iff.1 (h.allowed r hr)

theorem sum_count (h : p.IsAllotment as) :
    (p.rules.map fun r => as.count r.alphabet).sum = as.length := by
  have hsum := sum_map_count p.table.distinct h.known
  rwa [List.map_map] at hsum

/-- A policy whose rules can be allotted the characters of a password can be met. -/
theorem isFeasible (h : p.IsAllotment as) (hl : as.length = p.length)
    (hletters : ∀ a ∈ as, a.isEmpty = false) : p.isFeasible = true := by
  have hnone : ∀ r ∈ p.rules, r.alphabet.isEmpty = true → as.count r.alphabet = 0 := by
    intro r _ he
    refine List.count_eq_zero.2 fun hm => ?_
    rw [hletters _ hm] at he
    exact Bool.noConfusion he
  rw [isFeasible_iff]
  refine ⟨?_, ?_, ?_⟩
  · intro r hr
    by_cases he : r.alphabet.isEmpty = true
    · have hzero := (h.bounds hr).1
      rw [hnone r hr he] at hzero
      simp [Rule.isUnfillable, Rule.isRequired, Nat.le_zero.1 hzero]
    · simp [Rule.isUnfillable, he]
  · rw [← hl, ← h.sum_count]
    exact List.sum_le_sum fun r hr => (h.bounds hr).1
  · rw [← hl, ← h.sum_count]
    apply covers_sum
    intro r hr m hm
    by_cases he : r.alphabet.isEmpty = true
    · rw [hnone r hr he]
      exact Nat.zero_le m
    · rw [Rule.capacity, if_neg he] at hm
      exact (h.bounds hr).2 m hm

end IsAllotment

end Policy

end PasswordPolicy
