import PasswordPolicy.Proofs.CountRange.Spelling

/-!
# What comes of reading a range

A text without the blanks at its ends has one of four forms, or it has none. In one of the forms it
gives bounds, and it is read as the range with these bounds unless they are out of order. In none
of them it is malformed. Nothing else can come of reading it (`readTrimmed_eq_error_iff`,
`read_by_bounds`).
-/

namespace PasswordPolicy

namespace CountRange

variable {t : Text} {e : Error}

/-- A text is refused when its bounds are out of order or when it gives none. -/
theorem readTrimmed_eq_error_iff :
    readTrimmed t = .error e ↔
      (∃ low high, Bounds t low (some high) ∧ high < low ∧ e = .invertedRange low high) ∨
        (¬∃ low high, Bounds t low high) ∧ e = .malformedRange t := by
  constructor
  · intro h
    by_cases hbounds : ∃ low high, Bounds t low high
    · obtain ⟨low, high, hb⟩ := hbounds
      rw [readTrimmed_of_bounds hb, check_eq_error_iff] at h
      obtain ⟨m, rfl, hlt, rfl⟩ := h
      exact .inl ⟨low, m, hb, hlt, rfl⟩
    · rw [(exists_bounds_or t).resolve_left hbounds] at h
      exact .inr ⟨hbounds, (Except.error.inj h).symm⟩
  · rintro (⟨low, high, hb, hlt, rfl⟩ | ⟨hbounds, rfl⟩)
    · rw [readTrimmed_of_bounds hb]
      exact check_eq_error_iff.2 ⟨high, rfl, hlt, rfl⟩
    · exact (exists_bounds_or t).resolve_left hbounds

/-- What comes of reading a text depends on what is left of it without the blanks at its ends. In
one of the four forms that is read as the range with its bounds, and refused with these bounds
where they are out of order. In no form it is malformed, and refused as it is. So more blanks at
the ends make no difference, and a character that is no digit is refused anywhere else unless it is
a sign with a run of digits before it. -/
theorem read_by_bounds (t : Text) :
    ∃ u, (∀ v, Text.Trims t v ↔ v = u) ∧
      (∀ r, read t = .ok r ↔ Bounds u r.least r.most) ∧
      (∀ e, read t = .error e ↔
        (∃ low high, Bounds u low (some high) ∧ high < low ∧ e = .invertedRange low high) ∨
          (¬∃ low high, Bounds u low high) ∧ e = .malformedRange u) ∧
      (∀ p s, (∀ c ∈ p, Text.isBlank c = true) → (∀ c ∈ s, Text.isBlank c = true) →
        read (p ++ t ++ s) = read t) ∧
      ∀ a c b, u = a ++ c :: b → c.isDigit = false →
        ((c ≠ '+' ∧ c ≠ '-') ∨ ¬∃ n, Numeral.Spells a n) →
          read t = .error (.malformedRange u) := by
  refine ⟨Text.trim t, fun v => ?_, fun r => readTrimmed_eq_ok_iff,
    fun e => readTrimmed_eq_error_iff, fun p s hp hs => read_pad hp hs t, ?_⟩
  · rw [← Text.trim_eq_iff, eq_comm]
  · intro a c b hu hc hrefused
    refine readTrimmed_eq_error_iff.2 (.inr ⟨?_, rfl⟩)
    rintro ⟨low, high, hb⟩
    obtain ⟨hsign, hnumeral⟩ := hb.sign hu hc
    rcases hrefused with ⟨hp, hm⟩ | hnot
    · exact hsign.elim hp hm
    · exact hnot hnumeral

-- A wide blank, leading zeros, and bounds out of order.
example : read "\u3000007-3\n".toList = .error (.invertedRange 7 3) :=
  rfl

end CountRange

end PasswordPolicy
