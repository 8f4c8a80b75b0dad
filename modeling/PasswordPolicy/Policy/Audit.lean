import PasswordPolicy.Policy.Basic

/-!
# Auditing a password

An audit compares a password with a policy: its length, whether every character
belongs to some rule, and for each rule whether the characters of its alphabet
are as many as the rule allows. Where alphabets overlap, a character can count
for several rules, so nothing can be said of upper bounds.
-/

namespace PasswordPolicy

structure Audit where
  length : Nat
  /-- Whether every character belongs to the alphabet of some rule. -/
  covered : Bool
  /-- Whether there are as many characters for every rule as it asks for. -/
  enough : Bool
  /-- Whether there are no more characters for any rule than it admits, unless
  alphabets overlap. -/
  within : Option Bool
  deriving DecidableEq

/-- How many characters of a text belong to the alphabet of a rule. -/
def Rule.count (r : Rule) (w : Text) : Nat := w.countP (r.alphabet.letters.contains ·)

namespace Policy

/-- Whether two alphabets of different rules have a character in common. -/
def overlaps : List Rule → Bool
  | [] => false
  | r :: rs =>
    rs.any (fun s => r.alphabet.letters.any (s.alphabet.letters.contains ·)) || overlaps rs

def audit (p : Policy) (w : Text) : Audit where
  length := w.length
  covered := w.all fun c => p.rules.any (·.alphabet.letters.contains c)
  enough := p.rules.all fun r => r.range.least ≤ r.count w
  within :=
    if overlaps p.rules then none
    else some (p.rules.all fun r => r.range.allows (r.count w))

end Policy

end PasswordPolicy
