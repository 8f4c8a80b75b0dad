/-!
# Text

A text is the list of its characters. `cutAt? c t` divides a text at the first
occurrence of `c`, and `cutAt?_eq_some_iff` says so: the first part is free of
`c`, and the two parts with `c` between them make up the text.
-/

namespace PasswordPolicy

/-- A text, as the list of its characters. -/
abbrev Text := List Char

namespace Text

/-- The parts of a text before and after the first occurrence of a character,
if the character occurs. -/
def cutAt? (c : Char) (t : Text) : Option (Text × Text) :=
  match t.dropWhile (· != c) with
  | [] => none
  | _ :: rest => some (t.takeWhile (· != c), rest)

theorem cutAt?_nil (c : Char) : cutAt? c [] = none := rfl

theorem cutAt?_cons_self (c : Char) (t : Text) :
    cutAt? c (c :: t) = some ([], t) := by
  simp [cutAt?]

theorem cutAt?_cons_of_ne {c x : Char} (h : x ≠ c) (t : Text) :
    cutAt? c (x :: t) = (cutAt? c t).map fun p => (x :: p.1, p.2) := by
  have hx : (x != c) = true := by simpa using h
  unfold cutAt?
  rw [List.dropWhile_cons, if_pos hx, List.takeWhile_cons, if_pos hx]
  split <;> rfl

/-- A cut is the division of the text at the first occurrence of the
character. -/
theorem cutAt?_eq_some_iff {c : Char} {t a b : Text} :
    cutAt? c t = some (a, b) ↔ t = a ++ c :: b ∧ c ∉ a := by
  induction t generalizing a with
  | nil => simp [cutAt?_nil]
  | cons x t ih =>
    by_cases h : x = c
    · subst h
      rw [cutAt?_cons_self]
      cases a with
      | nil => simp
      | cons y a => simp; intro h _ h'; exact absurd h h'
    · rw [cutAt?_cons_of_ne h]
      cases a with
      | nil => simp [h]
      | cons y a =>
        constructor
        · intro hm
          obtain ⟨p, hp, he⟩ := Option.map_eq_some_iff.1 hm
          obtain ⟨rfl, rfl, rfl⟩ : x = y ∧ p.1 = a ∧ p.2 = b := by simpa [and_assoc] using he
          have := ih.1 hp
          simp [this.1, this.2, Ne.symm h]
        · rintro ⟨ht, hn⟩
          obtain ⟨rfl, rfl⟩ : x = y ∧ t = a ++ c :: b := by simpa using ht
          have : cutAt? c (a ++ c :: b) = some (a, b) := ih.2 ⟨rfl, fun hc => hn (by simp [hc])⟩
          simp [this]

/-- Only a text without the character has no cut. -/
theorem cutAt?_eq_none_iff {c : Char} {t : Text} : cutAt? c t = none ↔ c ∉ t := by
  induction t with
  | nil => simp [cutAt?_nil]
  | cons x t ih =>
    by_cases h : x = c
    · subst h; simp [cutAt?_cons_self]
    · simp [cutAt?_cons_of_ne h, ih, Ne.symm h]

/-- The texts joined by a separator. -/
def joined (separator : Text) : List Text → Text
  | [] => []
  | [t] => t
  | t :: u :: ts => t ++ separator ++ joined separator (u :: ts)

/-- Whether two texts stand in alphabetical order, or are the same. -/
def alphabetical : Text → Text → Bool
  | [], _ => true
  | _ :: _, [] => false
  | x :: a, y :: b => x.toNat < y.toNat || (x == y && alphabetical a b)

def line (t : Text) : Text := t ++ ['\n']

end Text

end PasswordPolicy
