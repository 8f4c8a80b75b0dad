import PasswordPolicy.Policy.Reader
import PasswordPolicy.Rule.Draft

/-!
# Editing a policy

An edit changes the length of a policy or pushes a rule. It can fail, as a draft
can. Most edits bound the characters of one alphabet. There is one for each
standard class and for literals, and for each way to give the bounds, and all of
them are cases of `Edit.bound` (`Policy.edit_bound`).

`edit` makes one edit and reports its error; `editAll` makes a run of edits and
passes over those that fail. A policy draft is a request for a policy: where to
start, and the edits to make, of which none may fail.
-/

namespace PasswordPolicy

inductive Edit
  | length (n : Int)
  /-- Pushes a rule that is asked for on its own. -/
  | rule (draft : Rule.Draft)

namespace Edit

/-- Pushes the rule that bounds the characters of an alphabet. -/
def bound (a : Alphabet) (range : CountRange.Draft) : Edit := rule (.between (.given a) range)

def atLeast (a : Alphabet) (n : Int) : Edit := bound a (.atLeast n)

def atMost (a : Alphabet) (n : Int) : Edit := bound a (.atMost n)

def exactly (a : Alphabet) (n : Int) : Edit := bound a (.exactly n)

def upper : CountRange.Draft → Edit := bound (.ofClass .upper)

def upperAtLeast : Int → Edit := atLeast (.ofClass .upper)

def upperAtMost : Int → Edit := atMost (.ofClass .upper)

def upperExactly : Int → Edit := exactly (.ofClass .upper)

def lower : CountRange.Draft → Edit := bound (.ofClass .lower)

def lowerAtLeast : Int → Edit := atLeast (.ofClass .lower)

def lowerAtMost : Int → Edit := atMost (.ofClass .lower)

def lowerExactly : Int → Edit := exactly (.ofClass .lower)

def number : CountRange.Draft → Edit := bound (.ofClass .number)

def numberAtLeast : Int → Edit := atLeast (.ofClass .number)

def numberAtMost : Int → Edit := atMost (.ofClass .number)

def numberExactly : Int → Edit := exactly (.ofClass .number)

def symbol : CountRange.Draft → Edit := bound (.ofClass .symbol)

def symbolAtLeast : Int → Edit := atLeast (.ofClass .symbol)

def symbolAtMost : Int → Edit := atMost (.ofClass .symbol)

def symbolExactly : Int → Edit := exactly (.ofClass .symbol)

def custom (cs : Text) : CountRange.Draft → Edit := bound (.literal cs)

def customAtLeast (cs : Text) : Int → Edit := atLeast (.literal cs)

def customAtMost (cs : Text) : Int → Edit := atMost (.literal cs)

def customExactly (cs : Text) : Int → Edit := exactly (.literal cs)

end Edit

namespace Policy

def edit (p : Policy) : Edit → Except Error Policy
  | .length n => p.withLength? n
  | .rule draft => draft.build.map p.push

/-- The policy after an edit, or the policy itself if the edit fails. -/
def editOrKeep (p : Policy) (e : Edit) : Policy :=
  match p.edit e with
  | .ok q => q
  | .error _ => p

/-- The policy after a run of edits, passing over those that fail. -/
def editAll (p : Policy) (es : List Edit) : Policy := es.foldl editOrKeep p

/-- The policy or the error that each edit of a run gives. -/
def editTrace (p : Policy) : List Edit → List (Except Error Policy)
  | [] => []
  | e :: es => p.edit e :: (p.editOrKeep e).editTrace es

inductive Base
  | standard
  | written (t : Text)
  | fresh (length : Int) (rules : List Rule.Draft)

/-- The policy to start from. Rules are checked before the length. -/
def Base.build : Base → Except Error Policy
  | .standard => .ok Policy.standard
  | .written t => read t
  | .fresh n drafts => do
    let rules ← drafts.mapM Rule.Draft.build
    let length ← checkLength n
    return ⟨length, .ofList rules⟩

structure Draft where
  base : Base
  edits : List Edit

def Draft.build (d : Draft) : Except Error Policy := do
  let p ← d.base.build
  d.edits.foldlM edit p

/-- To bound an alphabet is to push its rule with the range, and it fails only where there is
no such range. -/
theorem edit_bound (p : Policy) (a : Alphabet) (range : CountRange.Draft) :
    p.edit (.bound a range) = range.build.map fun r => p.push ⟨r, a⟩ := by
  rw [Edit.bound, edit, Rule.Draft.build_given]
  cases range.build <;> rfl

-- The standard policy bounds each class below by one.
example :
    [.upperAtLeast 1, .lowerAtLeast 1, .numberAtLeast 1, .symbolAtLeast 1].foldlM edit
      ⟨defaultLength, .empty⟩ = .ok standard :=
  rfl

theorem editAll_cons (p : Policy) (e : Edit) (es : List Edit) :
    p.editAll (e :: es) = (p.editOrKeep e).editAll es := rfl

theorem editOrKeep_of_ok {p q : Policy} {e : Edit} (h : p.edit e = .ok q) :
    p.editOrKeep e = q := by
  simp [editOrKeep, h]

theorem editOrKeep_of_error {p : Policy} {e : Edit} {x : Error} (h : p.edit e = .error x) :
    p.editOrKeep e = p := by
  simp [editOrKeep, h]

end Policy

end PasswordPolicy
