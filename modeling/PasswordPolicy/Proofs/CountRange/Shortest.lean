import Mathlib.Data.List.Induction
import PasswordPolicy.Proofs.CountRange.RoundTrip

/-!
# The shortest spelling of a range

All numerals of a number are its shortest one with zeros before it
(`Numeral.exists_replicate_append_write`), so any other one is longer. A range may be spelled in
more than one form. Its text is in the form with the fewest signs and numerals, and with the
shortest numerals, so any other spelling is longer (`eq_text_of_length_le`), and so is whatever
else is read as the range (`text_shortest`).
-/

namespace PasswordPolicy

namespace Numeral

variable {c : Char} {d : Text} {n : Nat}

theorem toNat_sub_lt_ten (h : c.isDigit = true) : c.toNat - '0'.toNat < 10 := by
  have hc : 48 ≤ c.toNat ∧ c.toNat ≤ 57 := Char.isDigit_iff_toNat.1 h
  change c.toNat - 48 < 10
  omega

/-- A digit is the numeral of its value. -/
theorem write_digit (h : c.isDigit = true) : write (c.toNat - '0'.toNat) = [c] := by
  have hchar : Nat.digitChar (c.toNat - '0'.toNat) = c := by
    have hc : 48 ≤ c.toNat ∧ c.toNat ≤ 57 := Char.isDigit_iff_toNat.1 h
    rw [← Char.toNat_inj, Nat.toNat_digitChar_of_lt_ten (toNat_sub_lt_ten h)]
    change 48 + (c.toNat - 48) = c.toNat
    omega
  rw [write, Nat.toDigits_of_lt_base (toNat_sub_lt_ten h), hchar]

/-- The numeral of a positive number takes another digit at its end. -/
theorem write_concat (hn : 0 < n) (h : c.isDigit = true) :
    write (10 * n + (c.toNat - '0'.toNat)) = write n ++ [c] := by
  rw [← write_digit h]
  exact (Nat.toDigits_append_toDigits (by decide) hn (toNat_sub_lt_ten h)).symm

/-- Any numeral of a number is its shortest one with zeros before it. -/
theorem exists_replicate_append_write (h : Spells d n) :
    ∃ k, d = List.replicate k '0' ++ write n := by
  -- The numeral that is written grows at its end, so the induction is on the last digit.
  induction d using List.reverseRecOn generalizing n with
  | nil => exact absurd rfl h.ne_nil
  | append_singleton d c ih =>
      obtain ⟨-, hdigit, rfl⟩ := h
      have hc : c.isDigit = true := hdigit c (by simp)
      rw [Nat.ofDigitChars_append, Nat.ofDigitChars_cons, Nat.ofDigitChars_nil]
      by_cases hd : d = []
      · subst hd
        refine ⟨0, ?_⟩
        rw [Nat.ofDigitChars_nil, Nat.mul_zero, Nat.zero_add, write_digit hc]
        rfl
      obtain ⟨k, hk⟩ := ih ⟨hd, fun x hx => hdigit x (by simp [hx]), rfl⟩
      rcases Nat.eq_zero_or_pos (Nat.ofDigitChars 10 d 0) with hzero | hpos
      · refine ⟨k + 1, ?_⟩
        rw [hzero] at hk
        rw [hzero, Nat.mul_zero, Nat.zero_add, write_digit hc, List.replicate_succ', hk]
        rfl
      · refine ⟨k, ?_⟩
        rw [write_concat hpos hc, ← List.append_assoc, ← hk]

namespace Spells

theorem length_write_le (h : Spells d n) : (write n).length ≤ d.length := by
  obtain ⟨k, rfl⟩ := exists_replicate_append_write h
  rw [List.length_append]
  exact Nat.le_add_left ..

theorem eq_write_of_length_le (h : Spells d n) (hle : d.length ≤ (write n).length) :
    d = write n := by
  obtain ⟨k, rfl⟩ := exists_replicate_append_write h
  rw [List.length_append, List.length_replicate] at hle
  obtain rfl : k = 0 := by omega
  rfl

theorem length_pos (h : Spells d n) : 0 < d.length :=
  List.length_pos_iff.2 h.ne_nil

end Spells

end Numeral

namespace CountRange

variable {t u : Text} {r : CountRange}

/-- A spelling of a range that is no longer than the text of the range is that text. -/
theorem eq_text_of_length_le (h : Spells u r) (hle : u.length ≤ r.text.length) : u = r.text := by
  cases h with
  | @exactly d n hd =>
      have htext : (exactly n).text = Numeral.write n := text_of_eq rfl rfl
      rw [htext] at hle ⊢
      exact hd.eq_write_of_length_le hle
  | @atLeast d n hd =>
      have htext : (atLeast n).text = Numeral.write n ++ ['+'] := text_of_most_eq_none rfl
      rw [htext, List.length_append, List.length_append, Nat.add_le_add_iff_right] at hle
      rw [htext, hd.eq_write_of_length_le hle]
  | @atMost d n hd =>
      have hn := hd.length_write_le
      by_cases heq : 0 = n
      · have htext : (atMost n).text = Numeral.write n := text_of_eq rfl heq
        rw [htext, List.length_append, List.length_singleton] at hle
        omega
      · have htext : (atMost n).text = Numeral.write n ++ ['-'] := text_of_eq_zero rfl heq rfl
        rw [htext, List.length_append, List.length_append, Nat.add_le_add_iff_right] at hle
        rw [htext, hd.eq_write_of_length_le hle]
  | @between d e low high hd he h =>
      have hlow := hd.length_write_le
      have hhigh := he.length_write_le
      have hpos := hd.length_pos
      rw [List.length_append, List.length_cons] at hle
      by_cases heq : low = high
      · have htext : (between low high h).text = Numeral.write high := text_of_eq rfl heq
        rw [htext] at hle
        omega
      by_cases hzero : low = 0
      · have htext : (between low high h).text = Numeral.write high ++ ['-'] :=
          text_of_eq_zero rfl heq hzero
        rw [htext, List.length_append, List.length_singleton] at hle
        omega
      · have htext : (between low high h).text = Numeral.write low ++ '-' :: Numeral.write high :=
          text_of_ne_zero rfl heq hzero
        rw [htext, List.length_append, List.length_cons] at hle
        rw [htext, hd.eq_write_of_length_le (by omega), he.eq_write_of_length_le (by omega)]

/-- The text of a range is read as the range, and any other text that is read as the range is
longer. -/
theorem text_shortest (r : CountRange) :
    read r.text = .ok r ∧ ∀ t, read t = .ok r → t ≠ r.text → r.text.length < t.length := by
  refine ⟨read_text r, fun t ht hne => ?_⟩
  by_contra hlt
  have hle : t.length ≤ r.text.length := Nat.le_of_not_lt hlt
  have htrim : Text.trim t <:+: t := Text.trim_infix t
  have htext : Text.trim t = r.text :=
    eq_text_of_length_le (read_eq_ok_iff.1 ht) (htrim.length_le.trans hle)
  have hself : Text.trim t = t := htrim.sublist.eq_of_length_le (htext ▸ hle)
  exact hne (hself.symm.trans htext)

-- The range from zero to zero is spelled in three of the four forms.
example : ∀ t ∈ [['0'], ['0', '-'], ['0', '-', '0']], read t = .ok (exactly 0) := by
  decide

end CountRange

end PasswordPolicy
