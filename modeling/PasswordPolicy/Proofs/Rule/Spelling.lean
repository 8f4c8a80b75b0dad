import PasswordPolicy.Proofs.Rule.RoundTrip

/-!
# The spellings of an alphabet and of a rule

An alphabet has one spelling, the pattern of its class or its literal, and a rule has those
of its range, with blanks around them, next to that of its alphabet. What is read as an
alphabet or as a rule is a spelling of it, and nothing else is (`Alphabet.read_eq_ok_iff`,
`Rule.read_eq_ok_iff`). No spelling of a range has a bar or a slash in it, so the first bar of
a rule ends its range, and all slashes of a rule are those of its alphabet.
-/

namespace PasswordPolicy

open Text

namespace Alphabet

/-- The pattern of a class spells the class, and a literal spells itself, where it has
something in it and is not enclosed in colons. -/
inductive Spells : Text → Alphabet → Prop
  | standard (k : CharClass) : Spells k.pattern (ofClass k)
  | literal {cs : Text} (hne : cs ≠ []) (hc : ¬(cs.head? = some ':' ∧ cs.getLast? = some ':')) :
      Spells cs (literal cs)

theorem read_eq_ok_iff {t : Text} {a : Alphabet} : read t = .ok a ↔ Spells t a := by
  constructor
  · intro h
    cases a with
    | standard k tag =>
        obtain ⟨rfl, rfl⟩ := read_eq_standard_iff.1 h
        exact .standard k
    | literal cs =>
        obtain ⟨rfl, hne, hc⟩ := read_eq_literal_iff.1 h
        exact .literal hne (by simpa [isEnclosed] using hc)
  · intro h
    cases h with
    | standard k => exact read_pattern k
    | literal hne hc => exact read_eq_literal_iff.2 ⟨rfl, hne, by simpa [isEnclosed] using hc⟩

end Alphabet

namespace Rule

variable {r : Rule} {u : Text} {x : Text × Text}

/-- The texts of a range and of an alphabet spell a rule. -/
structure Spells (x : Text × Text) (r : Rule) : Prop where
  range : CountRange.Spells (trim x.1) r.range
  alphabet : Alphabet.Spells x.2 r.alphabet

/-- The text of a range, a bar, and the text of an alphabet. -/
def laidOut (x : Text × Text) : Text := x.1 ++ '|' :: x.2

theorem Spells.bar_not_mem (h : Spells x r) : '|' ∉ x.1 :=
  CountRange.not_mem_of_read (by decide) (by decide) (by decide) (by decide)
    (CountRange.read_eq_ok_iff.2 h.range)

theorem Spells.slash_not_mem (h : Spells x r) : '/' ∉ x.1 :=
  CountRange.not_mem_of_read (by decide) (by decide) (by decide) (by decide)
    (CountRange.read_eq_ok_iff.2 h.range)

theorem readParts_eq_ok_iff_spells : readParts x.1 x.2 = .ok r ↔ Spells x r := by
  rw [readParts_eq_ok_iff, CountRange.read_eq_ok_iff, Alphabet.read_eq_ok_iff]
  exact ⟨fun h => ⟨h.1, h.2⟩, fun h => ⟨h.range, h.alphabet⟩⟩

theorem read_eq_ok_iff : read u = .ok r ↔ ∃ x, laidOut x = u ∧ Spells x r := by
  constructor
  · intro h
    obtain ⟨i, hu, -, hrange, halphabet⟩ := exists_of_read h
    exact ⟨(i, r.alphabet.text), hu.symm,
      readParts_eq_ok_iff_spells.1 (readParts_eq_ok_iff.2 ⟨hrange, halphabet⟩)⟩
  · rintro ⟨x, rfl, hx⟩
    rw [laidOut, read_append hx.bar_not_mem]
    exact readParts_eq_ok_iff_spells.2 hx

theorem laidOut_ne_nil (x : Text × Text) : laidOut x ≠ [] := by
  simp [laidOut]

theorem cutAt?_laidOut (h : '|' ∉ x.1) : cutAt? '|' (laidOut x) = some x :=
  cutAt?_eq_some_iff.2 ⟨rfl, h⟩

theorem hasDoubleSlash_laidOut (h : '/' ∉ x.1) :
    hasDoubleSlash (laidOut x) = hasDoubleSlash x.2 := by
  have hslash : '/' ∉ x.1 ++ ['|'] := by simpa using h
  rw [laidOut, ← List.singleton_append, ← List.append_assoc, hasDoubleSlash_append hslash]

theorem getLast?_laidOut_iff :
    (laidOut x).getLast? = some '/' ↔ x.2.getLast? = some '/' := by
  rw [laidOut, List.getLast?_append_cons]
  cases x.2 with
  | nil => simp
  | cons c t => rw [List.getLast?_cons_cons]

end Rule

end PasswordPolicy
