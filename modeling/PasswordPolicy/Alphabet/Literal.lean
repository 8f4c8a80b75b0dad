import PasswordPolicy.Alphabet.Basic

/-!
# Literals that a policy can hold in its text

A literal that stands in the text of a policy must not be empty, must not have a
separator in it or end in half of one, and must not be enclosed in colons.
`defect?` gives the first of these conditions that a literal fails.
-/

namespace PasswordPolicy

namespace Text

/-- Whether two slashes stand side by side in a text. -/
def hasDoubleSlash : Text → Bool
  | '/' :: '/' :: _ => true
  | _ :: t => hasDoubleSlash t
  | [] => false

/-- Two slashes stand side by side when the text is divided by them. -/
theorem hasDoubleSlash_iff {t : Text} :
    hasDoubleSlash t = true ↔ ∃ a b, t = a ++ '/' :: '/' :: b := by
  fun_induction hasDoubleSlash t with
  | case1 t => simp only [true_iff]; exact ⟨[], t, rfl⟩
  | case2 c t h ih =>
    rw [ih]
    constructor
    · rintro ⟨a, b, rfl⟩; exact ⟨c :: a, b, rfl⟩
    · rintro ⟨a, b, hab⟩
      cases a with
      | nil =>
        obtain ⟨rfl, rfl⟩ := List.cons.inj hab
        exact absurd rfl (h b rfl)
      | cons x a => exact ⟨a, b, (List.cons.inj hab).2⟩
  | case3 => simp

end Text

namespace Alphabet

/-- What keeps a literal from standing in the text of a policy. -/
inductive Defect
  | notText
  | empty
  | separator
  | slash
  | colons
  deriving DecidableEq

def Defect.message : Defect → Text
  | notText => "Charset must be a string".toList
  | empty => "Charset cannot be empty".toList
  | separator => "Charset cannot contain '//'".toList
  | slash => "Charset cannot end with '/'".toList
  | colons => "Charset cannot start and end with ':'".toList

/-- The first defect of a literal, if it has one. -/
def defect? (cs : Text) : Option Defect :=
  if cs = [] then some .empty
  else if Text.hasDoubleSlash cs then some .separator
  else if cs.getLast? = some '/' then some .slash
  else if cs.head? = some ':' ∧ cs.getLast? = some ':' then some .colons
  else none

/-- The first defect of what is offered as a literal, which need not be a
text. -/
def offeredDefect? : Option Text → Option Defect
  | none => some .notText
  | some cs => defect? cs

end Alphabet

end PasswordPolicy
