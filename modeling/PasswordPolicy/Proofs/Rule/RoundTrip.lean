import PasswordPolicy.Proofs.CountRange.RoundTrip
import PasswordPolicy.Proofs.Text.Pieces
import PasswordPolicy.Rule.Basic

/-!
# Reading back the text of a rule

What is read as an alphabet is the text of the alphabet (`Alphabet.text_of_read`), so a rule
is read back from its text when its alphabet is (`Rule.read_text`). A literal without a
defect is read back, and so is one that only ends in a slash.
-/

namespace PasswordPolicy

namespace Alphabet

variable {a : Alphabet} {cs t : Text}

/-- Whether an alphabet is a literal or a standard class without a tag. -/
def IsUntagged : Alphabet → Prop
  | standard _ tag => tag = []
  | literal _ => True

instance : DecidablePred IsUntagged
  | standard _ tag => inferInstanceAs (Decidable (tag = []))
  | literal _ => inferInstanceAs (Decidable True)

theorem read_eq_standard_iff {k : CharClass} {tag : Text} :
    read t = .ok (standard k tag) ↔ t = k.pattern ∧ tag = [] := by
  constructor
  · intro h
    rw [read] at h
    split at h
    · next j hj =>
      obtain ⟨rfl, rfl⟩ := Alphabet.standard.inj (Except.ok.inj h)
      have ht := List.find?_some hj
      exact ⟨(decide_eq_true_eq.mp ht).symm, rfl⟩
    · split_ifs at h
      simp at h
  · rintro ⟨rfl, rfl⟩
    exact read_pattern k

theorem text_of_read (h : read t = .ok a) : a.text = t := by
  cases a with
  | standard k tag => exact (read_eq_standard_iff.1 h).1.symm
  | literal cs => exact (read_eq_literal_iff.1 h).1.symm

theorem isUntagged_of_read (h : read t = .ok a) : a.IsUntagged := by
  cases a with
  | standard k tag => exact (read_eq_standard_iff.1 h).2
  | literal cs => trivial

theorem defect?_eq_none_iff :
    defect? cs = none ↔ read cs = .ok (literal cs) ∧ Text.hasDoubleSlash cs = false ∧
      cs.getLast? ≠ some '/' := by
  rw [defect?, read_eq_literal_iff, isEnclosed]
  split_ifs <;> simp_all

theorem defect?_eq_slash_iff :
    defect? cs = some .slash ↔ read cs = .ok (literal cs) ∧ Text.hasDoubleSlash cs = false ∧
      cs.getLast? = some '/' := by
  rw [defect?, read_eq_literal_iff, isEnclosed]
  split_ifs <;> simp_all

theorem hasDoubleSlash_pattern (k : CharClass) : Text.hasDoubleSlash k.pattern = false := by
  cases k <;> decide

theorem getLast?_pattern (k : CharClass) : k.pattern.getLast? = some ':' := by
  cases k <;> decide

end Alphabet

namespace Rule

variable {r : Rule} {u : Text}

/-- What keeps the alphabet of a rule from standing in the text of a policy. -/
def defect? (r : Rule) : Option Alphabet.Defect :=
  match r.alphabet with
  | .literal cs => Alphabet.defect? cs
  | .standard _ _ => none

theorem bar_not_mem_range_text (r : CountRange) : '|' ∉ r.text :=
  CountRange.not_mem_text_of_not_sign (by decide) (by decide) (by decide) r

theorem slash_not_mem_range_text (r : CountRange) : '/' ∉ r.text :=
  CountRange.not_mem_text_of_not_sign (by decide) (by decide) (by decide) r

theorem hasDoubleSlash_text (r : Rule) :
    Text.hasDoubleSlash r.text = Text.hasDoubleSlash r.alphabet.text := by
  have hslash : '/' ∉ r.range.text ++ ['|'] := by
    simpa using slash_not_mem_range_text r.range
  rw [text, ← List.singleton_append, ← List.append_assoc, Text.hasDoubleSlash_append hslash]

theorem getLast?_text (h : r.alphabet.text ≠ []) :
    r.text.getLast? = r.alphabet.text.getLast? := by
  rw [text, List.getLast?_append_cons, List.getLast?_cons_of_ne_nil h]

theorem readParts_eq_ok_iff {i c : Text} :
    readParts i c = .ok r ↔ CountRange.read i = .ok r.range ∧ Alphabet.read c = .ok r.alphabet := by
  rw [readParts, bind_eq_ok_iff]
  constructor
  · rintro ⟨range, hrange, h⟩
    obtain ⟨alphabet, halphabet, h⟩ := bind_eq_ok_iff.1 h
    obtain rfl := Except.ok.inj h
    exact ⟨hrange, halphabet⟩
  · rintro ⟨hrange, halphabet⟩
    exact ⟨r.range, hrange, bind_eq_ok_iff.2 ⟨r.alphabet, halphabet, rfl⟩⟩

theorem read_text (h : Alphabet.read r.alphabet.text = .ok r.alphabet) : read r.text = .ok r := by
  rw [text, read_append (bar_not_mem_range_text r.range), readParts_eq_ok_iff]
  exact ⟨CountRange.read_text r.range, h⟩

theorem exists_of_read (h : read u = .ok r) :
    ∃ i, u = i ++ '|' :: r.alphabet.text ∧ '|' ∉ i ∧ CountRange.read i = .ok r.range ∧
      Alphabet.read r.alphabet.text = .ok r.alphabet := by
  rw [read] at h
  cases hcut : Text.cutAt? '|' u with
  | none => simp [hcut] at h
  | some x =>
      rw [hcut] at h
      obtain ⟨hu, hbar⟩ := Text.cutAt?_eq_some_iff.1 hcut
      obtain ⟨hrange, halphabet⟩ := readParts_eq_ok_iff.1 h
      have htext := Alphabet.text_of_read halphabet
      exact ⟨x.1, by rw [htext, hu], hbar, hrange, by rw [htext, halphabet]⟩

/-- A rule and what it was read from end alike. -/
theorem getLast?_of_read (h : read u = .ok r) : u.getLast? = r.text.getLast? := by
  obtain ⟨i, hu, -⟩ := exists_of_read h
  rw [hu, text, List.getLast?_append_cons, List.getLast?_append_cons]

theorem getLast?_text_of_standard {k : CharClass} {tag : Text}
    (h : r.alphabet = .standard k tag) : r.text.getLast? = some ':' := by
  rw [getLast?_text, h, Alphabet.text, Alphabet.getLast?_pattern]
  rw [h, Alphabet.text, CharClass.pattern]
  simp

theorem getLast?_text_of_literal {cs : Text} (h : r.alphabet = .literal cs)
    (hread : Alphabet.read cs = .ok (.literal cs)) : r.text.getLast? = cs.getLast? := by
  rw [getLast?_text, h, Alphabet.text]
  rw [h, Alphabet.text]
  exact (Alphabet.read_eq_literal_iff.1 hread).2.1

theorem defect?_eq_none_iff (ht : r.alphabet.IsUntagged) :
    r.defect? = none ↔ Alphabet.read r.alphabet.text = .ok r.alphabet ∧
      Text.hasDoubleSlash r.text = false ∧ r.text.getLast? ≠ some '/' := by
  rw [hasDoubleSlash_text, defect?]
  cases ha : r.alphabet with
  | standard k tag =>
      rw [ha] at ht
      obtain rfl : tag = [] := ht
      rw [getLast?_text_of_standard ha]
      simp [Alphabet.text, Alphabet.read_pattern, Alphabet.hasDoubleSlash_pattern,
        Alphabet.ofClass]
  | literal cs =>
      rw [Alphabet.defect?_eq_none_iff, Alphabet.text]
      refine and_congr_right ?_
      intro hread
      rw [getLast?_text_of_literal ha hread]

theorem defect?_eq_slash_iff :
    r.defect? = some .slash ↔ Alphabet.read r.alphabet.text = .ok r.alphabet ∧
      Text.hasDoubleSlash r.text = false ∧ r.text.getLast? = some '/' := by
  rw [hasDoubleSlash_text, defect?]
  cases ha : r.alphabet with
  | standard k tag =>
      rw [getLast?_text_of_standard ha]
      simp
  | literal cs =>
      rw [Alphabet.defect?_eq_slash_iff, Alphabet.text]
      refine and_congr_right ?_
      intro hread
      rw [getLast?_text_of_literal ha hread]

end Rule

end PasswordPolicy
