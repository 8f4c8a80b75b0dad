import PasswordPolicy.Proofs.Policy.RoundTrip

/-!
# The canonical text of a policy

Whatever text a policy was read from, it is read back from its own text
(`read_text_of_read`), although a text that is read may hold a literal with a defect: the
last literal of the text may end in a slash. A rule with such a literal stands for the last
piece of the text, and no earlier piece names its alphabet, since all of them end otherwise.
So it is the last rule of the policy too (`getLast?_rules_of_read`), and in the text of the
policy the slash is at the end again.
-/

namespace PasswordPolicy

namespace Policy

open Text

/-- The text of the policy that a text is read as. -/
def canonical (t : Text) : Except Error Text := (read t).map text

variable {p : Policy} {r : Rule} {rs : List Rule} {t u : Text} {us : List Text}

/-- The rule of the last piece comes last, after rules of the pieces before it. -/
theorem exists_concat_of_standFor (h : StandFor us rs) (hu : us.getLast? = some u)
    (hr : Rule.read u = .ok r) :
    ∃ ss, rs = ss ++ [r] ∧ ∀ s ∈ ss, ∃ v ∈ us.dropLast, Rule.read v = .ok s := by
  induction h with
  | nil => simp at hu
  | separator =>
      obtain rfl : [] = u := by simpa using hu
      simp [Rule.read, cutAt?_nil] at hr
  | @cons v s us rs hs hrest ih =>
      by_cases hus : us = []
      · subst hus
        obtain rfl : v = u := by simpa using hu
        obtain rfl : s = r := Except.ok.inj (hs.symm.trans hr)
        cases hrest
        exact ⟨[], rfl, by simp⟩
      · rw [List.getLast?_cons_of_ne_nil hus] at hu
        obtain ⟨ss, rfl, hss⟩ := ih hu
        refine ⟨s :: ss, rfl, ?_⟩
        rw [List.dropLast_cons_of_ne_nil hus]
        intro x hx
        rcases List.mem_cons.1 hx with rfl | hx
        · exact ⟨v, List.mem_cons_self .., hs⟩
        · obtain ⟨w, hw, hread⟩ := hss x hx
          exact ⟨w, List.mem_cons_of_mem v hw, hread⟩

/-- How the text of a rule ends depends on its alphabet alone. -/
theorem getLast?_text_congr {s : Rule} (h : r.alphabet = s.alphabet) :
    r.text.getLast? = s.text.getLast? := by
  rw [Rule.text, Rule.text, List.getLast?_append_cons, List.getLast?_append_cons, h]

/-- A rule whose text ends in a slash is the last one of a policy that was read. -/
theorem getLast?_rules_of_read (h : read t = .ok p) (hr : r ∈ p.rules)
    (hslash : r.text.getLast? = some '/') : p.rules.getLast? = some r := by
  obtain ⟨u, hu, hread⟩ := getLast?_pieces_of_read h hr hslash
  obtain ⟨v, us, hpieces⟩ := List.exists_cons_of_ne_nil (pieces_ne_nil t)
  obtain ⟨rs, hrs, htable⟩ := exists_standFor_of_read h
  have hends := (isCut_pieces t).not_endsInSlash
  obtain ⟨w, hw, -⟩ := exists_piece_of_read h hr
  rw [hpieces, List.tail_cons] at hrs hw
  have hus : us ≠ [] := List.ne_nil_of_mem hw
  rw [hpieces, List.getLast?_cons_of_ne_nil hus] at hu
  rw [hpieces, List.dropLast_cons_of_ne_nil hus] at hends
  obtain ⟨ss, rfl, hss⟩ := exists_concat_of_standFor hrs hu hread
  -- A rule before the last one was read from a piece that does not end in a slash.
  have hnew : r.alphabet ∉ ss.map Rule.alphabet := by
    intro hmem
    obtain ⟨s, hs, hsame⟩ := List.mem_map.1 hmem
    obtain ⟨x, hx, hxs⟩ := hss s hs
    refine hends x (List.mem_cons_of_mem v hx) ?_
    rw [Rule.getLast?_of_read hxs, getLast?_text_congr hsame, hslash]
  rw [rules, htable, RuleTable.rules_ofList_concat hnew, List.getLast?_concat]

/-- A policy that was read is legible in its own text. -/
theorem isLegible_of_read (h : read t = .ok p) : p.IsLegible := by
  intro r hr
  obtain ⟨u, hu, hread⟩ := exists_piece_of_read h hr
  rcases defect?_of_mem_pieces (List.mem_of_mem_tail hu) hread with hnone | ⟨hdefect, hslash⟩
  · exact Or.inl hnone
  · exact Or.inr ⟨hdefect, getLast?_rules_of_read h hr hslash⟩

theorem isUntagged_of_read (h : read t = .ok p) : ∀ r ∈ p.rules, r.alphabet.IsUntagged := by
  intro r hr
  obtain ⟨u, -, hread⟩ := exists_piece_of_read h hr
  obtain ⟨-, -, -, -, halphabet⟩ := Rule.exists_of_read hread
  exact Alphabet.isUntagged_of_read halphabet

theorem read_text_of_read (h : read t = .ok p) : read p.text = .ok p :=
  read_text_of_isLegible (isUntagged_of_read h) (isLegible_of_read h)

theorem canonical_of_read (h : read t = .ok p) : canonical t = .ok p.text := by
  rw [canonical, h]
  rfl

/-- A policy that was read is read back from its own text, and that text is canonical: it
is its own canonical text, and texts have the same one exactly when they are read as the
same policy. -/
theorem canonical_text (h : read t = .ok p) :
    read p.text = .ok p ∧ canonical p.text = canonical t ∧
      ∀ u q, read u = .ok q → (canonical u = canonical t ↔ q = p) := by
  have hback := read_text_of_read h
  rw [canonical_of_read h, canonical_of_read hback]
  refine ⟨hback, rfl, ?_⟩
  intro u q hu
  rw [canonical_of_read hu]
  constructor
  · intro heq
    have hq := read_text_of_read hu
    rw [Except.ok.inj heq, hback] at hq
    exact (Except.ok.inj hq).symm
  · rintro rfl
    rfl

/-- A text with leading zeros, blanks around a range, an alphabet that comes again and a
last literal that ends in a slash. -/
def spelledOut : Text := "007// 1-3 |a|b//2|:upper://04+|a|b//3-|:x/".toList

/-- The policy that it is read as. -/
def readFromSpelledOut : Policy :=
  ⟨7, .ofList [⟨.atLeast 4, .literal ['a', '|', 'b']⟩, ⟨.exactly 2, .ofClass .upper⟩,
    ⟨.atMost 3, .literal [':', 'x', '/']⟩]⟩

theorem canonical_text_spelledOut :
    readFromSpelledOut.isReadable = false ∧
      readFromSpelledOut.text = "7//4+|a|b//2|:upper://3-|:x/".toList ∧
      read spelledOut = .ok readFromSpelledOut ∧
      read readFromSpelledOut.text = .ok readFromSpelledOut ∧
      canonical readFromSpelledOut.text = canonical spelledOut ∧
      ∀ u q, read u = .ok q → (canonical u = canonical spelledOut ↔ q = readFromSpelledOut) := by
  have h : read spelledOut = .ok readFromSpelledOut := rfl
  exact ⟨by decide, by decide, h, canonical_text h⟩

end Policy

end PasswordPolicy
