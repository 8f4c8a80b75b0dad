import PasswordPolicy.Proofs.CountRange.Spelling

/-!
# Reading back the text of a range

The text of a range is one of its spellings (`spells_text`). It has digits and signs only,
so there is nothing to trim from it, and it is read as the range (`read_text`).
-/

namespace PasswordPolicy

namespace CountRange

variable {m : Nat} {r : CountRange}

theorem text_of_most_eq_none (h : r.most = none) :
    r.text = Numeral.write r.least ++ ['+'] := by
  rw [text, h]

theorem text_of_most_eq_some (h : r.most = some m) :
    r.text = if r.least = m then Numeral.write m
      else if r.least = 0 then Numeral.write m ++ ['-']
      else Numeral.write r.least ++ '-' :: Numeral.write m := by
  rw [text, h]

theorem text_of_eq (hm : r.most = some m) (h : r.least = m) : r.text = Numeral.write m := by
  rw [text_of_most_eq_some hm, if_pos h]

theorem text_of_eq_zero (hm : r.most = some m) (hne : r.least ≠ m) (h : r.least = 0) :
    r.text = Numeral.write m ++ ['-'] := by
  rw [text_of_most_eq_some hm, if_neg hne, if_pos h]

theorem text_of_ne_zero (hm : r.most = some m) (hne : r.least ≠ m) (h : r.least ≠ 0) :
    r.text = Numeral.write r.least ++ '-' :: Numeral.write m := by
  rw [text_of_most_eq_some hm, if_neg hne, if_neg h]

/-- The text of a range is one of its spellings. -/
theorem spells_text (r : CountRange) : Spells r.text r := by
  rw [spells_iff_bounds]
  have hleast := Numeral.spells_write r.least
  cases hmost : r.most with
  | none =>
      rw [text_of_most_eq_none hmost]
      exact .atLeast hleast
  | some m =>
      have hm := Numeral.spells_write m
      by_cases heq : r.least = m
      · rw [text_of_eq hmost heq, heq]
        exact .exactly hm
      by_cases hzero : r.least = 0
      · rw [text_of_eq_zero hmost heq hzero, hzero]
        exact .atMost hm
      · rw [text_of_ne_zero hmost heq hzero]
        exact .between hleast hm

theorem not_mem_text_of_not_sign {c : Char} (hd : c.isDigit = false) (hp : c ≠ '+')
    (hm : c ≠ '-') (r : CountRange) : c ∉ r.text :=
  not_mem_of_spells hd hp hm (spells_text r)

theorem read_text (r : CountRange) : read r.text = .ok r := by
  rw [read_eq_ok_iff, Text.trim_eq_self]
  · exact spells_text r
  intro c hc
  rcases isDigit_or_sign_of_spells (spells_text r) hc with h | rfl | rfl
  · exact Text.isBlank_of_isDigit h
  · decide
  · decide

end CountRange

end PasswordPolicy
