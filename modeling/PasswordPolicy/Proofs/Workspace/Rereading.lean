import PasswordPolicy.Proofs.Rule.RoundTrip
import PasswordPolicy.Proofs.Workspace.Soundness

/-!
# Reading back what is left of a rule

What is left of a rule under a quota has a text as long as the counts of the quota are in order,
and it is read back from that text if its alphabet is. The text of a range has no bar in it, so
the alphabet is all that follows the first bar, whatever bars, slashes, digits, signs and blanks
there are in it. A standard class is read back, and so is a literal, unless it is empty or enclosed
in colons (`Alphabet.read_text_iff`). This is less than the text of a whole policy asks of its
literals.
-/

namespace PasswordPolicy

namespace Alphabet

variable {a : Alphabet}

/-- Whether an alphabet can be told from its text: it is a standard class, or a literal that has
something in it and is not enclosed in colons. -/
def IsSpellable : Alphabet → Prop
  | standard _ _ => True
  | literal cs => cs ≠ [] ∧ ¬(cs.head? = some ':' ∧ cs.getLast? = some ':')

instance : DecidablePred IsSpellable
  | standard _ _ => inferInstanceAs (Decidable True)
  | literal cs =>
    inferInstanceAs (Decidable (cs ≠ [] ∧ ¬(cs.head? = some ':' ∧ cs.getLast? = some ':')))

theorem read_text_iff (ht : a.IsUntagged) : read a.text = .ok a ↔ a.IsSpellable := by
  cases a with
  | standard k tag =>
      obtain rfl : tag = [] := ht
      exact iff_of_true (read_pattern k) trivial
  | literal cs =>
      rw [text, read_eq_literal_iff, and_iff_right rfl, IsSpellable, isEnclosed]
      simp

end Alphabet

namespace Rule

variable {r s : Rule} {u : Text}

/-- What is read back from the text of a rule has its range. -/
theorem read_text_eq_ok_iff :
    read r.text = .ok s ↔ r.range = s.range ∧ Alphabet.read r.alphabet.text = .ok s.alphabet := by
  rw [text, read_append (bar_not_mem_range_text r.range), readParts_eq_ok_iff,
    CountRange.read_text, Except.ok.injEq]

/-- A rule that was read is read back from its own text. -/
theorem read_text_of_read (h : read u = .ok r) : read r.text = .ok r := by
  obtain ⟨-, -, -, -, halphabet⟩ := exists_of_read h
  exact read_text halphabet

end Rule

namespace Quota

variable {q : Quota}

/-- What is left of a rule has a text, however much has been drawn. It is read back from that text
with the same counts exactly when its alphabet is a standard class, or a literal that has something
in it and is not enclosed in colons. Whatever a rule was read from, it is read back from its own
text. -/
theorem reads_back_iff_isSpellable (ho : q.IsOrdered) (ht : q.alphabet.IsUntagged) :
    (∃ r, q.rule = .ok r ∧ ofRule r = q ∧
      ((∃ s, Rule.read r.text = .ok s ∧ ofRule s = q) ↔ q.alphabet.IsSpellable)) ∧
      ∀ u r, Rule.read u = .ok r → Rule.read r.text = .ok r := by
  obtain ⟨r, rfl, hr⟩ := rule_eq_ok_of_isOrdered ho
  refine ⟨⟨r, hr, rfl, ?_, ?_⟩, fun u s => Rule.read_text_of_read⟩
  · rintro ⟨s, hs, heq⟩
    obtain ⟨-, -, halphabet⟩ := Quota.mk.inj heq
    obtain ⟨-, hread⟩ := Rule.read_text_eq_ok_iff.1 hs
    rw [halphabet] at hread
    exact (Alphabet.read_text_iff ht).1 hread
  · intro h
    exact ⟨r, Rule.read_text ((Alphabet.read_text_iff ht).2 h), rfl⟩

/-- A rule over a literal with a digit, signs, a bar, a blank, colons and slashes, which also end
it. -/
def overSigns : Rule := ⟨.between 2 3 (by decide), .literal "1+|-: //:/".toList⟩

/-- What is left of it after one draw. -/
def overSignsDrawn : Quota := ((ofRule overSigns).draw (.cycle #[0])).quota

theorem reads_back_iff_isSpellable_overSigns :
    overSignsDrawn.IsOrdered ∧ overSignsDrawn.alphabet.IsUntagged ∧
      (∃ r, overSignsDrawn.rule = .ok r ∧ r.text = "1-2|1+|-: //:/".toList ∧
        ∃ s, Rule.read r.text = .ok s ∧ ofRule s = overSignsDrawn) ∧
      Rule.read "02-|0|/".toList = .ok ⟨.atMost 2, .literal ['0', '|', '/']⟩ ∧
      Rule.read "2-|0|/".toList = .ok ⟨.atMost 2, .literal ['0', '|', '/']⟩ := by
  have ho : overSignsDrawn.IsOrdered := isOrdered_draw (isOrdered_ofRule overSigns) _
  have ht : overSignsDrawn.alphabet.IsUntagged := trivial
  have hread : Rule.read "02-|0|/".toList = .ok ⟨.atMost 2, .literal ['0', '|', '/']⟩ := rfl
  obtain ⟨⟨r, hr, -, hback⟩, hagain⟩ := reads_back_iff_isSpellable ho ht
  refine ⟨ho, ht, ⟨r, hr, ?_, hback.2 (by decide)⟩, hread, hagain _ _ hread⟩
  obtain rfl := Except.ok.inj hr
  rfl

-- The text of a literal that is enclosed in colons is read as a class.
example : Rule.read (Rule.mk (.atLeast 1) (.literal ":upper:".toList)).text =
    .ok ⟨.atLeast 1, .ofClass .upper⟩ :=
  rfl

end Quota

end PasswordPolicy
