import PasswordPolicy.Policy.Edit
import PasswordPolicy.Text.Quoted

/-!
# Parts of a policy

A range, an alphabet, a rule, a table and a whole policy can be compared with one
another, be written as text and be inspected. Parts of different kinds never
agree. Inspecting a part names its kind and its fields; a policy is inspected by
its text.
-/

namespace PasswordPolicy

/-- The upper bound of a range as inspected. -/
def CountRange.inspectMost : Option Nat → Text
  | some n => Numeral.write n
  | none => "None".toList

/-- A range with its bounds named. -/
def CountRange.inspect (r : CountRange) : Text :=
  "Interval(min=".toList ++ Numeral.write r.least ++ ", max=".toList ++
    inspectMost r.most ++ [')']

/-- The kind of an alphabet in capital letters. -/
def Alphabet.kindTitle (a : Alphabet) : Text := a.kindName.map Char.toUpper

/-- An alphabet with its kind and its characters named. -/
def Alphabet.inspect (a : Alphabet) : Text :=
  "Charset(kind=<CharsetKind.".toList ++ a.kindTitle ++ ": '".toList ++ a.kindName ++
    "'>, chars=".toList ++ Text.quoted a.chars ++ [')']

def Rule.inspect (r : Rule) : Text :=
  "Constraint(".toList ++ r.range.inspect ++ ", ".toList ++ r.alphabet.inspect ++ [')']

def RuleTable.inspect (t : RuleTable) : Text :=
  "ConstraintSet([".toList ++ Text.joined ", ".toList (t.rules.map Rule.inspect) ++
    "])".toList

def Policy.inspect (p : Policy) : Text :=
  "PasswordSpec(".toList ++ Text.quoted p.text ++ [')']

/-- A part of a policy, or a whole one. -/
inductive Part
  | range (r : CountRange)
  | alphabet (a : Alphabet)
  | rule (r : Rule)
  | table (t : RuleTable)
  | policy (p : Policy)

namespace Part

def text : Part → Text
  | range r => r.text
  | alphabet a => a.text
  | rule r => r.text
  | table t => t.text
  | policy p => p.text

def inspect : Part → Text
  | range r => r.inspect
  | alphabet a => a.inspect
  | rule r => r.inspect
  | table t => t.inspect
  | policy p => p.inspect

/-- Whether two parts are of one kind and the same, tables and policies up to
the order of their rules. -/
def agrees : Part → Part → Bool
  | range r, range s => r == s
  | alphabet a, alphabet b => a == b
  | rule r, rule s => r == s
  | table t, table u => t.agrees u
  | policy p, policy q => p.agrees q
  | _, _ => false

inductive Draft
  | range (d : CountRange.Draft)
  | alphabet (d : Alphabet.Draft)
  | rule (d : Rule.Draft)
  | table (ds : List Rule.Draft)
  | policy (d : Policy.Draft)

def Draft.build : Draft → Except Error Part
  | .range d => d.build.map Part.range
  | .alphabet d => d.build.map Part.alphabet
  | .rule d => d.build.map Part.rule
  | .table ds => (ds.mapM Rule.Draft.build).map fun rs => Part.table (.ofList rs)
  | .policy d => d.build.map Part.policy

end Part

end PasswordPolicy
