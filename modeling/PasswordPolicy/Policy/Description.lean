import PasswordPolicy.Alphabet.Literal
import PasswordPolicy.Policy.Basic

/-!
# Describing a policy

A description has a line for the length and a line for each rule, with the range
in words. `unreadable` lists the literals of a policy that do not survive being
written into its text.
-/

namespace PasswordPolicy

def Alphabet.describe : Alphabet → Text
  | standard k _ => k.word
  | literal cs => "custom '".toList ++ cs ++ ['\'']

def Rule.describe (r : Rule) : Text :=
  r.alphabet.describe ++ ": ".toList ++ r.range.describe

/-- The literal of a rule, if it has a defect. -/
def Rule.unreadable? (r : Rule) : Option Text :=
  match r.alphabet with
  | .literal cs => if (Alphabet.defect? cs).isSome then some cs else none
  | .standard _ _ => none

namespace Policy

def describe (p : Policy) : Text :=
  Text.joined ['\n']
    (("length: ".toList ++ Numeral.write p.length) :: p.rules.map Rule.describe)

/-- The literals that do not survive being written into the text, in the order of
their rules. -/
def unreadable (p : Policy) : List Text := p.rules.filterMap Rule.unreadable?

/-- Whether all literals survive being written into the text. -/
def isReadable (p : Policy) : Bool := p.unreadable.isEmpty

end Policy

end PasswordPolicy
