import PasswordPolicy.Alphabet.Reader
import PasswordPolicy.CountRange.Reader

/-!
# Rules

A rule says how many characters of an alphabet a password may hold. It is
written as its range and its alphabet with a bar between them. A range has no
bar, so the first bar of the text is the one between the two, and a literal may
have bars of its own.
-/

namespace PasswordPolicy

/-- How many characters of which alphabet a password may hold. -/
structure Rule where
  range : CountRange
  alphabet : Alphabet
  deriving DecidableEq

namespace Rule

def text (r : Rule) : Text := r.range.text ++ '|' :: r.alphabet.text

/-- The rule with the given texts of its range and its alphabet. -/
def readParts (range alphabet : Text) : Except Error Rule := do
  let r ← CountRange.read range
  let a ← Alphabet.read alphabet
  return ⟨r, a⟩

def read (t : Text) : Except Error Rule :=
  match Text.cutAt? '|' t with
  | some (range, alphabet) => readParts range alphabet
  | none => .error (.missingBar t)

def isRequired (r : Rule) : Bool := 0 < r.range.least

def isActive (r : Rule) : Bool := r.range.most != some 0

/-- Whether the rule asks for characters where there are none. -/
def isUnfillable (r : Rule) : Bool := r.isRequired && r.alphabet.isEmpty

/-- A text that begins with a bar-free range is divided after the range. -/
theorem read_append {range alphabet : Text} (h : '|' ∉ range) :
    read (range ++ '|' :: alphabet) = readParts range alphabet := by
  rw [read, Text.cutAt?_eq_some_iff.2 ⟨rfl, h⟩]

end Rule

end PasswordPolicy
