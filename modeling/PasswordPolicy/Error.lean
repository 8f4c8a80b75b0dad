import PasswordPolicy.Text.Numeral

/-!
# Errors

The causes for which a policy or one of its parts cannot be read or built, each
with what is at fault. `Error.message` is the wording. `bind_eq_ok_iff` says when
two steps that may fail succeed.
-/

namespace PasswordPolicy

/-- Why a policy or a part of one cannot be read or built. -/
inductive Error
  /-- The text is not one of the forms of a count range. -/
  | malformedRange (found : Text)
  /-- The lower bound of a count range is above its upper bound. -/
  | invertedRange (low high : Nat)
  /-- A bound of a count range is negative. -/
  | negativeBound (low : Int) (high : Option Int)
  /-- There is no text where an alphabet should stand. -/
  | missingAlphabet
  /-- The text is enclosed in colons and names no character class. -/
  | unknownClass (found : Text)
  /-- A rule has no bar between its range and its alphabet. -/
  | missingBar (found : Text)
  /-- The length of a policy is not a numeral. -/
  | malformedLength (found : Text)
  /-- The length of a policy is negative. -/
  | negativeLength (length : Int)
  /-- A rule of a policy ends before its bar. -/
  | malformedRule (found : Text)
  deriving DecidableEq

namespace Error

/-- The upper bound of a range in an error message. -/
def boundText : Option Int → Text
  | some n => Numeral.writeInt n
  | none => "None".toList

def message : Error → Text
  | malformedRange t =>
    "got `".toList ++ t ++
      "`, expect the format for an interval to be: N, N+, N-, or A-B".toList
  | invertedRange low high =>
    "Expect the interval to have the first value <= the second, got ".toList ++
      Numeral.write low ++ " <= ".toList ++ Numeral.write high
  | negativeBound low high =>
    "Interval bounds must be non-negative, got ".toList ++
      Numeral.writeInt low ++ ", ".toList ++ boundText high
  | missingAlphabet => "No character set".toList
  | unknownClass t =>
    "Specified a :pattern:, but `".toList ++ t ++ "` isn't recognized".toList
  | missingBar t =>
    "Unable to parse `".toList ++ t ++ "`, expect a form like interval|charset".toList
  | malformedLength t =>
    "Length `".toList ++ t ++
      "` in the password spec was not a non-negative number".toList
  | negativeLength n =>
    "Password length must be non-negative, got ".toList ++ Numeral.writeInt n
  | malformedRule t =>
    "Password spec improperly formatted near `".toList ++ t ++
      "`, expect LENGTH//INTERVAL|CHARSET//INTERVAL|CHARSET...".toList

/-- The part of the text that is at fault, if the error is about a text. -/
def excerpt? : Error → Option Text
  | malformedRange t | unknownClass t | missingBar t | malformedLength t
  | malformedRule t => some t
  | invertedRange low high => some (Numeral.write low ++ '-' :: Numeral.write high)
  | missingAlphabet => some []
  | negativeBound _ _ | negativeLength _ => none

end Error

section Success

variable {α β ε : Type} {x : Except ε α} {b : β}

/-- Two steps succeed together when the second succeeds with what the first gives. -/
theorem bind_eq_ok_iff {f : α → Except ε β} :
    x >>= f = .ok b ↔ ∃ a, x = .ok a ∧ f a = .ok b := by
  cases x with
  | error e => simp [bind, Except.bind]
  | ok a => simp [bind, Except.bind]

end Success

end PasswordPolicy
