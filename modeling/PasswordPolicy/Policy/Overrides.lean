import PasswordPolicy.Policy.Edit

/-!
# Overrides

Overrides replace the length of a policy and its rules for the standard classes,
and push further rules. They apply in a fixed order: the length, the classes in
their usual order, then the further rules as they are listed. So a further rule
for a standard class prevails over the range given for the class.
-/

namespace PasswordPolicy

/-- What to replace in a policy. -/
structure Overrides where
  length : Option Int
  upper : Option CountRange
  lower : Option CountRange
  number : Option CountRange
  symbol : Option CountRange
  custom : List Rule

namespace Overrides

def empty : Overrides := ⟨none, none, none, none, none, []⟩

/-- The range given for a standard class. -/
def range? (o : Overrides) : CharClass → Option CountRange
  | .upper => o.upper
  | .lower => o.lower
  | .number => o.number
  | .symbol => o.symbol

def classRules (o : Overrides) : List Rule :=
  CharClass.all.filterMap fun k => (o.range? k).map fun r => ⟨r, .ofClass k⟩

/-- All rules in the order in which they apply. -/
def rules (o : Overrides) : List Rule := o.classRules ++ o.custom

structure Draft where
  length : Option Int
  upper : Option CountRange.Draft
  lower : Option CountRange.Draft
  number : Option CountRange.Draft
  symbol : Option CountRange.Draft
  custom : List Rule.Draft

def Draft.build (d : Draft) : Except Error Overrides := do
  let upper ← d.upper.mapM CountRange.Draft.build
  let lower ← d.lower.mapM CountRange.Draft.build
  let number ← d.number.mapM CountRange.Draft.build
  let symbol ← d.symbol.mapM CountRange.Draft.build
  let custom ← d.custom.mapM Rule.Draft.build
  return ⟨d.length, upper, lower, number, symbol, custom⟩

end Overrides

namespace Policy

/-- The policy with its length replaced, if a length is given. -/
def replaceLength (p : Policy) : Option Int → Except Error Policy
  | none => .ok p
  | some n => p.withLength? n

/-- The policy with more rules, pushed one after the other. -/
def pushAll (p : Policy) (rs : List Rule) : Policy := rs.foldl push p

def override (p : Policy) (o : Overrides) : Except Error Policy :=
  (p.replaceLength o.length).map fun q => q.pushAll o.rules

/-- The text of the standard policy, which is where overrides start if no other
text is given. -/
def standardText : Text :=
  "32//1+|:upper://1+|:lower://1+|:number://1+|:symbol:".toList

/-- The policy that a text stands for, or the standard one if there is none, with
overrides applied. -/
def resolve (t : Option Text) (o : Overrides) : Except Error Policy := do
  let p ← read (t.getD standardText)
  p.override o

theorem length_pushAll (p : Policy) (rs : List Rule) :
    (p.pushAll rs).length = p.length := by
  induction rs generalizing p with
  | nil => rfl
  | cons r rs ih => exact ih (p.push r)

theorem table_pushAll (p : Policy) (rs : List Rule) :
    (p.pushAll rs).table = p.table.pushAll rs := by
  induction rs generalizing p with
  | nil => rfl
  | cons r rs ih => exact ih (p.push r)

end Policy

end PasswordPolicy
