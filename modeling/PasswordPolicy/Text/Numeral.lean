import PasswordPolicy.Text.Basic

/-!
# Numerals

A numeral is a non-empty run of the digits 0 to 9, leading zeros allowed.
`write` gives the numeral without leading zeros, and `read?_write` says that it
is read back.
-/

namespace PasswordPolicy

namespace Numeral

/-- The number that a run of digits stands for, if the text is one. -/
def read? (t : Text) : Option Nat :=
  if t ≠ [] ∧ t.all Char.isDigit = true then some (Nat.ofDigitChars 10 t 0) else none

/-- The shortest numeral of a number. -/
def write (n : Nat) : Text := Nat.toDigits 10 n

/-- The numeral of an integer, after a minus sign if the integer is negative. -/
def writeInt : Int → Text
  | .ofNat n => write n
  | .negSucc n => '-' :: write (n + 1)

theorem write_ne_nil (n : Nat) : write n ≠ [] := by
  have h : 0 < (write n).length := Nat.length_toDigits_pos
  exact List.ne_nil_of_length_pos h

theorem isDigit_of_mem_write {n : Nat} {c : Char} (h : c ∈ write n) :
    c.isDigit = true :=
  Nat.isDigit_of_mem_toDigits (by decide) (by decide) h

theorem read?_isSome_iff {t : Text} :
    (read? t).isSome = true ↔ t ≠ [] ∧ ∀ c ∈ t, c.isDigit = true := by
  simp [read?]

/-- A written number is read back. -/
theorem read?_write (n : Nat) : read? (write n) = some n := by
  have hd : (write n).all Char.isDigit = true := by
    simpa using fun c hc => isDigit_of_mem_write (n := n) hc
  rw [read?, if_pos ⟨write_ne_nil n, hd⟩]
  exact congrArg some (Nat.ofDigitChars_toDigits (by decide) (by decide))

end Numeral

end PasswordPolicy
