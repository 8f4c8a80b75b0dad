import PasswordPolicy.Policy.Basic

/-!
# Reading a policy

A policy is written as its length and its rules, with a separator `//` before
each rule and, if one likes, one at the end. Within a rule, all up to the first
bar is the range, and all from there to the next separator is the alphabet.

Reading goes in two steps. `divide` divides the text into the text of the length
and the texts of the ranges and alphabets, in one pass; it fails if a rule ends
before its bar. Then the length and the rules are read in their order, so an
error in the division precedes any other, and an error in the length precedes
one in a rule.
-/

namespace PasswordPolicy

namespace Policy

/-- How far a pass over the text of a policy has come. The text that belongs to
the current part, and the rules already passed, are listed backwards. -/
inductive Phase
  | length (seen : Text)
  | range (length : Text) (rules : List (Text × Text)) (seen : Text)
  | alphabet (length : Text) (rules : List (Text × Text)) (range seen : Text)

/-- The texts of the length and of the range and alphabet of each rule. -/
structure Division where
  length : Text
  rules : List (Text × Text)
  deriving DecidableEq

def separator : Text := ['/', '/']

/-- The part of a rule without a bar that an error shows: what there is of it,
or else the separator. -/
def strayPart (seen : Text) : Text :=
  if seen = [] then separator else seen.reverse

/-- The division of a text when a pass over it has come to a given phase. -/
def Phase.divide : Phase → Text → Except Error Division
  | .length seen, [] => .ok ⟨seen.reverse, []⟩
  | .length seen, '/' :: '/' :: t => (range seen.reverse [] []).divide t
  | .length seen, c :: t => (length (c :: seen)).divide t
  | .range n rules seen, [] =>
    if seen = [] then .ok ⟨n, rules.reverse⟩ else .error (.malformedRule (strayPart seen))
  | .range n rules seen, '|' :: t => (alphabet n rules seen.reverse []).divide t
  | .range _ _ seen, '/' :: '/' :: _ => .error (.malformedRule (strayPart seen))
  | .range n rules seen, c :: t => (range n rules (c :: seen)).divide t
  | .alphabet n rules r seen, [] => .ok ⟨n, ((r, seen.reverse) :: rules).reverse⟩
  | .alphabet n rules r seen, '/' :: '/' :: t =>
    (range n ((r, seen.reverse) :: rules) []).divide t
  | .alphabet n rules r seen, c :: t => (alphabet n rules r (c :: seen)).divide t

def divide (t : Text) : Except Error Division := (Phase.length []).divide t

/-- The policy with the given texts of its parts. The length comes first, then
the rules in their order. -/
def Division.policy (d : Division) : Except Error Policy :=
  match Numeral.read? d.length with
  | none => .error (.malformedLength d.length)
  | some n => do
    let rules ← d.rules.mapM fun r => Rule.readParts r.1 r.2
    return ⟨n, .ofList rules⟩

def read (t : Text) : Except Error Policy := do
  let d ← divide t
  d.policy

/-- Whether the text of a policy is read as a policy that agrees with it, or the
error that reading it gives. -/
def readsBack (p : Policy) : Except Error Bool := do
  let q ← read p.text
  return q.agrees p

end Policy

end PasswordPolicy
