import PasswordPolicy.Alphabet.Basic

/-!
# Reading an alphabet

The pattern of a class stands for the class. Any other text between colons is
refused, so that a misspelt class is not taken for a literal, and all other text
is a literal.
-/

namespace PasswordPolicy

namespace Alphabet

/-- Whether a text begins and ends with a colon. One colon does both. -/
def isEnclosed (t : Text) : Bool :=
  t.head? == some ':' && t.getLast? == some ':'

def read (t : Text) : Except Error Alphabet :=
  match CharClass.all.find? (·.pattern = t) with
  | some k => .ok (ofClass k)
  | none =>
    if t = [] then .error .missingAlphabet
    else if isEnclosed t then .error (.unknownClass t)
    else .ok (literal t)

theorem find?_pattern (k : CharClass) :
    CharClass.all.find? (fun j => j.pattern = k.pattern) = some k := by
  cases k <;> decide

/-- The pattern of a class is read as the class. -/
theorem read_pattern (k : CharClass) : read k.pattern = .ok (ofClass k) := by
  rw [read, find?_pattern]

theorem isEnclosed_pattern (k : CharClass) : isEnclosed k.pattern = true := by
  cases k <;> decide

/-- A text that is not enclosed is no pattern. -/
theorem find?_eq_none_of_not_isEnclosed {t : Text} (h : isEnclosed t = false) :
    CharClass.all.find? (fun j => j.pattern = t) = none := by
  rw [List.find?_eq_none]
  rintro k - hk
  rw [decide_eq_true_eq] at hk
  rw [← hk, isEnclosed_pattern] at h
  exact absurd h (by decide)

/-- A text stands for itself as a literal when there is something in it and it
is not enclosed in colons. -/
theorem read_eq_literal_iff {t cs : Text} :
    read t = .ok (literal cs) ↔ t = cs ∧ t ≠ [] ∧ isEnclosed t = false := by
  cases he : isEnclosed t with
  | false =>
    rw [read, find?_eq_none_of_not_isEnclosed he]
    by_cases hn : t = [] <;> simp [hn, he]
  | true =>
    rw [read]
    cases hf : CharClass.all.find? (fun j => j.pattern = t) with
    | none =>
      by_cases hn : t = [] <;> simp [hn, he]
    | some k => simp [ofClass]

end Alphabet

end PasswordPolicy
