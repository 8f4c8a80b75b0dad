import PasswordPolicy.Policy.Overrides
import PasswordPolicy.Proofs.Fallible
import PasswordPolicy.Proofs.Policy.Reading

/-!
# Continuing the text of a policy

Rules that are put after the text of a policy, each after a separator, do the same as rules
that are pushed onto the policy once it has been read. Where a text does not end in a slash,
its pieces and the texts of the further rules are the pieces of the longer text
(`Text.pieces_append_flatMap`), and each of them has its bar. So the longer text is read as
the policy with more rules, or the first error among the further rules is reported
(`read_append_eq_map`).
-/

namespace PasswordPolicy

namespace Text

variable {t : Text} {gs : List Text}

theorem eq_append_flatMap_pieces {u : Text} {us : List Text} (h : pieces t = u :: us) :
    t = u ++ us.flatMap (['/', '/'] ++ ·) := by
  rw [← joined_cons_eq_append, ← h, joined_pieces]

/-- In a text that does not end in a slash the last piece does not end in one either. -/
theorem not_endsInSlash_of_mem_pieces (ht : t.getLast? ≠ some '/') {q : Text}
    (hq : q ∈ pieces t) : q.getLast? ≠ some '/' := by
  by_cases hlast : (pieces t).getLast? = some q
  · intro hslash
    refine ht ?_
    rw [← joined_pieces t, getLast?_joined _ hlast, hslash]
    rintro rfl
    simp at hslash
  · exact (isCut_pieces t).not_endsInSlash q
      (List.mem_dropLast_of_mem_of_ne_getLast? hq (Ne.symm hlast))

/-- A text that does not end in a slash has no separator at its end. -/
theorem getLast?_tail_pieces (ht : t.getLast? ≠ some '/') :
    (pieces t).tail.getLast? ≠ some [] := by
  obtain ⟨u, us, hu⟩ := List.exists_cons_of_ne_nil (pieces_ne_nil t)
  rw [hu, List.tail_cons]
  intro hlast
  obtain ⟨vs, rfl⟩ := List.getLast?_eq_some_iff.1 hlast
  refine ht ?_
  rw [eq_append_flatMap_pieces hu]
  simp

/-- Pieces that are put after a text that does not end in a slash are pieces of the whole. -/
theorem pieces_append_flatMap (ht : t.getLast? ≠ some '/') (hgs : IsCut gs) :
    pieces (t ++ gs.flatMap (['/', '/'] ++ ·)) = pieces t ++ gs := by
  obtain ⟨u, us, hu⟩ := List.exists_cons_of_ne_nil (pieces_ne_nil t)
  have hcut : IsCut (pieces t ++ gs) := by
    refine ⟨by simp [hgs.ne_nil], ?_, ?_⟩
    · exact List.forall_mem_append.2
        ⟨(isCut_pieces t).not_hasDoubleSlash, hgs.not_hasDoubleSlash⟩
    · rw [List.dropLast_append_of_ne_nil hgs.ne_nil]
      exact List.forall_mem_append.2
        ⟨fun q hq => not_endsInSlash_of_mem_pieces ht hq, hgs.not_endsInSlash⟩
  rw [← pieces_joined hcut, hu, List.cons_append, joined_cons_eq_append, List.flatMap_append,
    ← List.append_assoc, ← eq_append_flatMap_pieces hu]

end Text

namespace Policy

open Text

variable {p : Policy} {t u : Text} {us gs : List Text} {rs : List Rule}

/-- The error of the first text that is not read. -/
theorem mapM_read_of_error {before after : List Text} {g : Text} {e : Error}
    (hbefore : ∀ g' ∈ before, ∃ r, Rule.read g' = .ok r) (hg : Rule.read g = .error e) :
    (before ++ g :: after).mapM Rule.read = .error e := by
  refine mapM_eq_error_iff.2 ⟨g, List.find?_eq_some_iff_append.2 ⟨?_, before, after, rfl, ?_⟩, hg⟩
  · rw [hg]
    rfl
  · intro g' hg'
    obtain ⟨r, hr⟩ := hbefore g' hg'
    rw [hr]
    rfl

theorem pushAll_eq (p : Policy) (rs : List Rule) :
    p.pushAll rs = ⟨p.length, p.table.pushAll rs⟩ :=
  ext_parts (length_pushAll p rs) (table_pushAll p rs)

/-- Rules after the text of a policy are pushed onto the policy. -/
theorem read_append_eq_map (h : read t = .ok p) (ht : t.getLast? ≠ some '/') (hgs : IsCut gs)
    (hbar : ∀ g ∈ gs, '|' ∈ g) :
    read (t ++ gs.flatMap (separator ++ ·)) = (gs.mapM Rule.read).map p.pushAll := by
  obtain ⟨u, us, hu⟩ := List.exists_cons_of_ne_nil (pieces_ne_nil t)
  obtain ⟨hlength, rs, hrs, htable⟩ := (read_eq_ok_iff hu).1 h
  have hlast := getLast?_tail_pieces ht
  rw [hu, List.tail_cons] at hlast
  have hforall := standFor_iff_forall₂.1 hrs
  rw [rulePieces_of_getLast? hlast] at hforall
  have hpieces : pieces (t ++ gs.flatMap (separator ++ ·)) = u :: (us ++ gs) := by
    rw [← List.cons_append, ← hu]
    exact pieces_append_flatMap ht hgs
  have hbars : ∀ v ∈ us ++ gs, '|' ∈ v :=
    List.forall_mem_append.2 ⟨bar_mem_of_forall₂ hforall, hbar⟩
  have hrules := rulePieces_of_bar hbars
  rw [read_eq_map_mapM hpieces (by rwa [hrules]) hlength, hrules, List.mapM_append,
    mapM_eq_ok_of_forall₂ hforall]
  cases gs.mapM Rule.read with
  | error e => rfl
  | ok ss =>
      refine congrArg Except.ok ?_
      rw [pushAll_eq, htable, ← RuleTable.ofList_append]

theorem override_custom (p : Policy) (rs : List Rule) :
    p.override { Overrides.empty with custom := rs } = .ok (p.pushAll rs) := rfl

/-- Rules put after the text of a policy do the same as overrides of the policy with the
rules that they stand for. If one of them cannot be read, the error of the first such rule
is that of the whole text. -/
theorem read_append_rules (h : read t = .ok p) (ht : t.getLast? ≠ some '/') (hgs : IsCut gs)
    (hbar : ∀ g ∈ gs, '|' ∈ g) :
    (∀ rs, List.Forall₂ (fun g r => Rule.read g = .ok r) gs rs →
      ∃ q, read (t ++ gs.flatMap (separator ++ ·)) = .ok q ∧
        p.override { Overrides.empty with custom := rs } = .ok q) ∧
      ∀ before g after e, gs = before ++ g :: after →
        (∀ g' ∈ before, ∃ r, Rule.read g' = .ok r) → Rule.read g = .error e →
        read (t ++ gs.flatMap (separator ++ ·)) = .error e := by
  rw [read_append_eq_map h ht hgs hbar]
  refine ⟨?_, ?_⟩
  · intro rs hrs
    rw [mapM_eq_ok_of_forall₂ hrs]
    exact ⟨p.pushAll rs, rfl, override_custom p rs⟩
  · rintro before g after e rfl hbefore hg
    rw [mapM_read_of_error hbefore hg]
    rfl

/-- Rules with blanks around the range, with a slash or a bar in the alphabet, and with an
alphabet that the policy has already. -/
def furtherRules : List Text :=
  ["2|:upper:".toList, " 0-3 |/:x".toList, "4+|a|b".toList, "1|c/".toList]

theorem read_append_rules_furtherRules :
    ∃ p, read "05//1|a|b".toList = .ok p ∧ "05//1|a|b".toList.getLast? ≠ some '/' ∧
      IsCut furtherRules ∧ (∀ g ∈ furtherRules, '|' ∈ g) ∧
      (∀ rs, List.Forall₂ (fun g r => Rule.read g = .ok r) furtherRules rs →
        ∃ q, read ("05//1|a|b".toList ++ furtherRules.flatMap (separator ++ ·)) = .ok q ∧
          p.override { Overrides.empty with custom := rs } = .ok q) ∧
      ∀ before g after e, furtherRules = before ++ g :: after →
        (∀ g' ∈ before, ∃ r, Rule.read g' = .ok r) → Rule.read g = .error e →
        read ("05//1|a|b".toList ++ furtherRules.flatMap (separator ++ ·)) = .error e := by
  have h : read "05//1|a|b".toList = .ok ⟨5, .ofList [⟨.exactly 1, .literal ['a', '|', 'b']⟩]⟩ :=
    rfl
  have ht : "05//1|a|b".toList.getLast? ≠ some '/' := by decide
  have hgs : IsCut furtherRules := ⟨by decide, by decide, by decide⟩
  have hbar : ∀ g ∈ furtherRules, '|' ∈ g := by decide
  exact ⟨_, h, ht, hgs, hbar, read_append_rules h ht hgs hbar⟩

end Policy

end PasswordPolicy
