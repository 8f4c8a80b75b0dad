import PasswordPolicy.CountRange.Basic
import PasswordPolicy.Text.Blank

/-!
# Reading a count range

A range is written `N`, `N+`, `N-` or `A-B`, with blanks allowed around it.
`N` allows `N` only, `N+` any number from `N`, `N-` any number up to `N`, and
`A-B` the numbers from `A` to `B`.
-/

namespace PasswordPolicy

namespace CountRange

/-- The range that a trimmed text stands for. The lower numeral is the run of
digits at the beginning; what follows it decides on the form. -/
def readTrimmed (t : Text) : Except Error CountRange :=
  match Numeral.read? (t.takeWhile Char.isDigit), t.dropWhile Char.isDigit with
  | some n, [] => .ok (exactly n)
  | some n, ['+'] => .ok (atLeast n)
  | some n, ['-'] => .ok (atMost n)
  | some low, '-' :: rest =>
    match Numeral.read? rest with
    | some high => check low (some high)
    | none => .error (.malformedRange t)
  | _, _ => .error (.malformedRange t)

def read (t : Text) : Except Error CountRange :=
  readTrimmed (Text.trim t)

/-- Blanks around a range make no difference. -/
theorem read_pad {p s : Text} (hp : ∀ c ∈ p, Text.isBlank c = true)
    (hs : ∀ c ∈ s, Text.isBlank c = true) (t : Text) :
    read (p ++ t ++ s) = read t := by
  rw [read, Text.trim_pad hp hs, read]

end CountRange

end PasswordPolicy
