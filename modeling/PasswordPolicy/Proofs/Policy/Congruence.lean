import Mathlib.Algebra.BigOperators.Group.List.Basic
import PasswordPolicy.Proofs.Generation.Price
import PasswordPolicy.Proofs.Policy.Counts
import PasswordPolicy.Proofs.Policy.RoundTrip

/-!
# Policies that agree cannot be told apart

Policies agree when they have the same length and find rules of the same range for the same
alphabets (`agrees_iff_range_eq`), so their rules are rearrangements of one another. The totals
of a policy do not depend on the order of its rules, and an edit of two policies that agree
fails for both or makes two policies that agree. For one source the two come to different
passwords, since characters are drawn in the order of the rules. But what a policy comes to for
some source is the text that meets it (`exists_generate_iff`), and a text meets both or none
(`isMetBy_congr`). So nothing that is asked of them tells them apart (`IsAlike`).
-/

namespace PasswordPolicy

/-- Tables find rules of the same range for an alphabet only if they find the same rule. -/
theorem RuleTable.map_range_find?_eq_iff {s t : RuleTable} {a : Alphabet} :
    (s.find? a).map Rule.range = (t.find? a).map Rule.range ↔ s.find? a = t.find? a := by
  constructor
  · intro h
    cases hs : s.find? a with
    | none =>
        rw [hs, Option.map_none, eq_comm, Option.map_eq_none_iff] at h
        exact h.symm
    | some r =>
        rw [hs, Option.map_some, eq_comm, Option.map_eq_some_iff] at h
        obtain ⟨⟨range, b⟩, ht, hrange⟩ := h
        obtain rfl : range = r.range := hrange
        obtain rfl : b = a := (find?_eq_some_iff.1 ht).2
        obtain rfl : r.alphabet = b := (find?_eq_some_iff.1 hs).2
        exact ht.symm
  · intro h
    rw [h]

namespace Policy

variable {p q : Policy}

theorem least_congr (h : p.rules.Perm q.rules) : p.least = q.least := by
  rw [least, least, ← List.sum_eq_foldr, ← List.sum_eq_foldr]
  exact (h.map fun r => r.range.least).sum_nat

theorem most_congr (h : p.rules.Perm q.rules) : p.most = q.most :=
  totalCapacity_perm (h.map Rule.capacity)

theorem isFeasible_congr (h : p.agrees q = true) : p.isFeasible = q.isFeasible := by
  obtain ⟨hlength, hrules⟩ := agrees_iff_perm.1 h
  rw [Bool.eq_iff_iff, isFeasible_iff, isFeasible_iff, least_congr hrules, most_congr hrules,
    hlength]
  simp only [hrules.mem_iff]

theorem isReadable_congr (h : p.rules.Perm q.rules) : p.isReadable = q.isReadable := by
  rw [Bool.eq_iff_iff, isReadable_iff, isReadable_iff]
  simp only [h.mem_iff]

theorem cost_congr (h : p.agrees q = true) : p.cost = q.cost := by
  obtain ⟨hlength, hrules⟩ := agrees_iff_perm.1 h
  rw [cost, cost, price, price, isFeasible_congr h, least_congr hrules, hlength]

/-- An attribution to rules does not depend on the order of the rules. -/
theorem isMetBy_congr (h : p.agrees q = true) {w : Text} : p.IsMetBy w ↔ q.IsMetBy w := by
  obtain ⟨hlength, hrules⟩ := agrees_iff_perm.1 h
  rw [IsMetBy, IsMetBy, hlength]
  refine and_congr_right fun _ => exists_congr fun owners => ⟨?_, ?_⟩
  · rintro ⟨hknown, hbelongs, hallowed⟩
    exact ⟨fun r hr => hrules.mem_iff.1 (hknown r hr), hbelongs,
      fun r hr => hallowed r (hrules.mem_iff.2 hr)⟩
  · rintro ⟨hknown, hbelongs, hallowed⟩
    exact ⟨fun r hr => hrules.mem_iff.2 (hknown r hr), hbelongs,
      fun r hr => hallowed r (hrules.mem_iff.1 hr)⟩

/-- Over all sources a policy comes to the texts that meet it, and to no password exactly when
it cannot be met. -/
theorem exists_generate_iff {w : Option Text} :
    (∃ s s', p.generate s = .ok (w, s')) ↔ w.elim (p.isFeasible = false) p.IsMetBy := by
  cases w with
  | none =>
      rw [Option.elim_none]
      constructor
      · rintro ⟨s, s', hs⟩
        by_contra hfeasible
        obtain ⟨w, -, hw⟩ := (spans_generate (by simpa using hfeasible)).sound s
        rw [hs] at hw
        cases hw
      · intro h
        exact ⟨.ofSequence id, _, generate_of_not_isFeasible h _⟩
  | some w =>
      rw [Option.elim_some]
      constructor
      · rintro ⟨s, s', hs⟩
        obtain ⟨v, hv, hsv⟩ := (spans_generate (generate_eq_ok_some hs)).sound s
        rw [hs] at hsv
        cases hsv
        exact hv
      · intro hw
        obtain ⟨vs, -, hgenerate⟩ := (spans_generate (isFeasible_of_isMetBy hw)).complete w hw
        exact ⟨_, _, hgenerate _ (Source.begins_cycle vs)⟩

theorem agrees_push (h : p.agrees q = true) (r : Rule) : (p.push r).agrees (q.push r) = true := by
  obtain ⟨hlength, hfind⟩ := agrees_iff_find?_eq.1 h
  refine agrees_iff_find?_eq.2 ⟨hlength, fun a => ?_⟩
  rw [push, push, RuleTable.find?_push, RuleTable.find?_push, hfind]

theorem agrees_withLength (h : p.agrees q = true) (n : Nat) :
    (p.withLength n).agrees (q.withLength n) = true :=
  agrees_iff_find?_eq.2 ⟨rfl, (agrees_iff_find?_eq.1 h).2⟩

/-- An edit of policies that agree fails in the same way, or makes policies that agree. -/
theorem agrees_edit (h : p.agrees q = true) (e : Edit) :
    (∃ x, p.edit e = .error x ∧ q.edit e = .error x) ∨
      ∃ p' q', p.edit e = .ok p' ∧ q.edit e = .ok q' ∧ p'.agrees q' = true := by
  cases e with
  | length n =>
      rw [edit, edit, withLength?, withLength?]
      cases checkLength n with
      | error x => exact .inl ⟨x, rfl, rfl⟩
      | ok n => exact .inr ⟨_, _, rfl, rfl, agrees_withLength h n⟩
  | rule draft =>
      rw [edit, edit]
      cases draft.build with
      | error x => exact .inl ⟨x, rfl, rfl⟩
      | ok r => exact .inr ⟨_, _, rfl, rfl, agrees_push h r⟩

/-- A run of edits that passes over those that fail keeps policies in agreement. -/
theorem agrees_editAll (h : p.agrees q = true) (es : List Edit) :
    (p.editAll es).agrees (q.editAll es) = true := by
  induction es generalizing p q with
  | nil => exact h
  | cons e es ih =>
      rw [editAll_cons, editAll_cons]
      rcases agrees_edit h e with ⟨x, hp, hq⟩ | ⟨p', q', hp, hq, hagrees⟩
      · rw [editOrKeep_of_error hp, editOrKeep_of_error hq]
        exact ih h
      · rw [editOrKeep_of_ok hp, editOrKeep_of_ok hq]
        exact ih hagrees

/-- Agreement is an equivalence. -/
theorem equivalence_agrees : Equivalence fun p q : Policy => p.agrees q = true where
  refl p := agrees_iff_perm.2 ⟨rfl, .refl p.rules⟩
  symm h := by
    obtain ⟨hlength, hrules⟩ := agrees_iff_perm.1 h
    exact agrees_iff_perm.2 ⟨hlength.symm, hrules.symm⟩
  trans h₁ h₂ := by
    obtain ⟨hlength₁, hrules₁⟩ := agrees_iff_perm.1 h₁
    obtain ⟨hlength₂, hrules₂⟩ := agrees_iff_perm.1 h₂
    exact agrees_iff_perm.2 ⟨hlength₁.trans hlength₂, hrules₁.trans hrules₂⟩

/-- Policies agree when they have the same length and the same bounds for the same alphabets. -/
theorem agrees_iff_range_eq : p.agrees q = true ↔
    p.length = q.length ∧
      ∀ a, (p.table.find? a).map Rule.range = (q.table.find? a).map Rule.range := by
  rw [agrees_iff_find?_eq]
  simp only [RuleTable.map_range_find?_eq_iff]

/-- Whatever is asked of two policies, the answers are the same. -/
structure IsAlike (p q : Policy) : Prop where
  least : p.least = q.least
  most : p.most = q.most
  feasible : p.isFeasible = q.isFeasible
  /-- An edit fails with the same error, or makes policies that agree. -/
  edited : ∀ e, (∃ x, p.edit e = .error x ∧ q.edit e = .error x) ∨
    ∃ p' q', p.edit e = .ok p' ∧ q.edit e = .ok q' ∧ p'.agrees q' = true
  editedAll : ∀ es, (p.editAll es).agrees (q.editAll es) = true
  pushed : ∀ r, (p.push r).agrees (q.push r) = true
  readable : p.isReadable = q.isReadable
  /-- A generation makes the same number of calls, whatever the two sources. -/
  calls : ∃ n, ∀ s, (∃ w, p.generate s = .ok (w, s.skip n)) ∧ ∃ w, q.generate s = .ok (w, s.skip n)
  /-- What one comes to for some source the other comes to for some source. -/
  passwords : ∀ w, (∃ s s', p.generate s = .ok (w, s')) ↔ ∃ s s', q.generate s = .ok (w, s')

theorem isAlike_of_agrees (h : p.agrees q = true) : p.IsAlike q where
  least := least_congr (agrees_iff_perm.1 h).2
  most := most_congr (agrees_iff_perm.1 h).2
  feasible := isFeasible_congr h
  edited := agrees_edit h
  editedAll := agrees_editAll h
  pushed := agrees_push h
  readable := isReadable_congr (agrees_iff_perm.1 h).2
  calls := ⟨p.cost, fun s => ⟨p.exists_generate s, cost_congr h ▸ q.exists_generate s⟩⟩
  passwords w := by
    rw [exists_generate_iff, exists_generate_iff]
    cases w with
    | none => rw [Option.elim_none, Option.elim_none, isFeasible_congr h]
    | some w => exact isMetBy_congr h

/-- Agreement is an equivalence. It holds when the lengths are the same and the same alphabets
have the same bounds, whatever the order of the rules, and policies that agree cannot be told
apart by what is asked of them. -/
theorem agrees_congruence :
    Equivalence (fun p q : Policy => p.agrees q = true) ∧
      (∀ p q : Policy, p.agrees q = true ↔ p.length = q.length ∧
        ∀ a, (p.table.find? a).map Rule.range = (q.table.find? a).map Rule.range) ∧
      ∀ p q : Policy, p.agrees q = true → p.IsAlike q :=
  ⟨equivalence_agrees, fun _ _ => agrees_iff_range_eq, fun _ _ => isAlike_of_agrees⟩

/-- A policy of a letter and two digits. -/
def letterFirst : Policy :=
  ⟨3, .ofList [⟨.exactly 1, .literal ['a', 'b']⟩, ⟨.exactly 2, .ofClass .number⟩]⟩

/-- The same with the rules in the other order. -/
def digitsFirst : Policy :=
  ⟨3, .ofList [⟨.exactly 2, .ofClass .number⟩, ⟨.exactly 1, .literal ['a', 'b']⟩]⟩

/-- The policies are alike, although their texts differ and they come to different passwords for
the same source. -/
theorem agrees_congruence_letterFirst :
    letterFirst.agrees digitsFirst = true ∧ letterFirst.text ≠ digitsFirst.text ∧
      (letterFirst.generate (.cycle #[0])).map Prod.fst = .ok (some ['1', '1', 'a']) ∧
      (digitsFirst.generate (.cycle #[0])).map Prod.fst = .ok (some ['1', 'a', '1']) ∧
      letterFirst.IsAlike digitsFirst := by
  have h : letterFirst.agrees digitsFirst = true := by decide
  exact ⟨h, by decide, rfl, rfl, agrees_congruence.2.2 _ _ h⟩

end Policy

end PasswordPolicy
