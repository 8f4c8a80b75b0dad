import PasswordPolicy.Rule.Table

/-!
# Password policies

A policy fixes the length of a password and says, in a table of rules, how many
characters of which alphabets it may hold. Policies are values: `push` and
`withLength?` give a new policy.

Policies agree when their lengths are equal and their tables agree, so the order
of the rules makes no difference to the agreement.
-/

namespace PasswordPolicy

structure Policy where
  length : Nat
  table : RuleTable

namespace Policy

@[ext] theorem ext_parts {p q : Policy} (hl : p.length = q.length)
    (ht : p.table = q.table) : p = q := by
  cases p; cases q; simp_all

/-- The length of a password where none is given. -/
def defaultLength : Nat := 32

def rules (p : Policy) : List Rule := p.table.rules

/-- The policy with one more rule, in place of the one for its alphabet if there
is one. -/
def push (p : Policy) (r : Rule) : Policy := ⟨p.length, p.table.push r⟩

def withLength (p : Policy) (n : Nat) : Policy := ⟨n, p.table⟩

/-- A length for passwords, which must not be negative. -/
def checkLength (n : Int) : Except Error Nat :=
  if n < 0 then .error (.negativeLength n) else .ok n.toNat

/-- The policy with the given length, if that is not negative. -/
def withLength? (p : Policy) (n : Int) : Except Error Policy :=
  (checkLength n).map p.withLength

/-- The standard policy: the default length, with at least one character of each
standard class. -/
def standard : Policy :=
  ⟨defaultLength, .ofList (CharClass.all.map fun k => ⟨.atLeast 1, .ofClass k⟩)⟩

/-- Whether two policies have the same length and the same rules, in whatever
order. -/
def agrees (p q : Policy) : Bool := p.length == q.length && p.table.agrees q.table

/-- The text of a policy: its length, then its rules, each after a separator. -/
def text (p : Policy) : Text := Numeral.write p.length ++ p.table.text

end Policy

end PasswordPolicy
