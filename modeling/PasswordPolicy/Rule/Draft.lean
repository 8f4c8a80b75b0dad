import PasswordPolicy.CountRange.Draft
import PasswordPolicy.Rule.Basic

/-!
# Drafts of alphabets and rules

A draft is a request for an alphabet or a rule that has not been checked. Where
both parts of a rule are at fault, the error is that of the alphabet.
-/

namespace PasswordPolicy

inductive Alphabet.Draft
  | written (t : Text)
  | given (a : Alphabet)

def Alphabet.Draft.build : Alphabet.Draft → Except Error Alphabet
  | .written t => Alphabet.read t
  | .given a => .ok a

inductive Rule.Draft
  | written (t : Text)
  | between (alphabet : Alphabet.Draft) (range : CountRange.Draft)

def Rule.Draft.build : Rule.Draft → Except Error Rule
  | .written t => Rule.read t
  | .between alphabet range => do
    let a ← alphabet.build
    let r ← range.build
    return ⟨r, a⟩

/-- With an alphabet that is given, only the range can be at fault. -/
theorem Rule.Draft.build_given (a : Alphabet) (range : CountRange.Draft) :
    (between (.given a) range).build = range.build.map fun r => ⟨r, a⟩ := by
  change (range.build >>= fun r => .ok (Rule.mk r a)) = _
  cases range.build <;> rfl

end PasswordPolicy
