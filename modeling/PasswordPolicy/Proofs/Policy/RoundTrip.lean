import Mathlib.Data.List.Infix
import PasswordPolicy.Policy.Description
import PasswordPolicy.Proofs.Policy.Reading
import PasswordPolicy.Proofs.Rule.Agreement

/-!
# Reading back the text of a policy

The text of a policy is made up of the text of its length and the texts of its rules. If
none of its literals has a defect, these are the pieces of the text, and the policy is read
back (`read_text_of_isLegible`). The same holds where the last literal ends in a slash, since
no separator follows it. In any other place such a slash is taken for half of the separator,
and then what is read has not the same rules: a rule that ends in a slash is read from the
last piece only (`getLast?_pieces_of_read`).
-/

namespace PasswordPolicy

namespace Policy

open Text

/-- No literal has a defect, but that the last one may end in a slash. -/
def IsLegible (p : Policy) : Prop :=
  ∀ r ∈ p.rules, r.defect? = none ∨ r.defect? = some .slash ∧ p.rules.getLast? = some r

instance (p : Policy) : Decidable p.IsLegible :=
  inferInstanceAs (Decidable (∀ r ∈ p.rules,
    r.defect? = none ∨ r.defect? = some .slash ∧ p.rules.getLast? = some r))

variable {p q : Policy} {r : Rule} {rs : List Rule} {t : Text}

theorem not_mem_dropLast {α : Type} {x : α} {xs : List α} (hd : xs.Nodup)
    (h : xs.getLast? = some x) : x ∉ xs.dropLast := by
  obtain ⟨ys, rfl⟩ := List.getLast?_eq_some_iff.1 h
  rw [List.dropLast_concat]
  intro hx
  exact (List.nodup_append.1 hd).2.2 x hx x (by simp) rfl

theorem standFor_map_text (h : ∀ r ∈ rs, Rule.read r.text = .ok r) :
    StandFor (rs.map Rule.text) rs := by
  induction rs with
  | nil => exact .nil
  | cons r rs ih => exact .cons (h r (by simp)) (ih fun s hs => h s (by simp [hs]))

theorem text_eq_joined (p : Policy) :
    p.text = joined ['/', '/'] (Numeral.write p.length :: p.rules.map Rule.text) := by
  rw [joined_cons_eq_append, List.flatMap_map]
  rfl

theorem slash_not_mem_write (n : Nat) : '/' ∉ Numeral.write n := by
  intro h
  exact absurd (Numeral.isDigit_of_mem_write h) (by decide)

theorem read_and_hasDoubleSlash_of_isLegible (ht : ∀ r ∈ p.rules, r.alphabet.IsUntagged)
    (h : p.IsLegible) (hr : r ∈ p.rules) :
    Alphabet.read r.alphabet.text = .ok r.alphabet ∧ hasDoubleSlash r.text = false := by
  rcases h r hr with hnone | ⟨hslash, -⟩
  · obtain ⟨hread, hdouble, -⟩ := (Rule.defect?_eq_none_iff (ht r hr)).1 hnone
    exact ⟨hread, hdouble⟩
  · obtain ⟨hread, hdouble, -⟩ := Rule.defect?_eq_slash_iff.1 hslash
    exact ⟨hread, hdouble⟩

theorem isCut_of_isLegible (ht : ∀ r ∈ p.rules, r.alphabet.IsUntagged) (h : p.IsLegible) :
    IsCut (Numeral.write p.length :: p.rules.map Rule.text) where
  ne_nil := by simp
  not_hasDoubleSlash := by
    intro u hu
    rcases List.mem_cons.1 hu with rfl | hu
    · exact hasDoubleSlash_of_not_mem (slash_not_mem_write p.length)
    · obtain ⟨r, hr, rfl⟩ := List.mem_map.1 hu
      exact (read_and_hasDoubleSlash_of_isLegible ht h hr).2
  not_endsInSlash := by
    intro u hu
    by_cases hrules : p.rules = []
    · simp [hrules] at hu
    rw [List.dropLast_cons_of_ne_nil (by simpa using hrules), List.mem_cons,
      ← List.map_dropLast] at hu
    rcases hu with rfl | hu
    · intro hlast
      exact slash_not_mem_write p.length (List.mem_of_getLast? hlast)
    · obtain ⟨r, hr, rfl⟩ := List.mem_map.1 hu
      have hmem := List.mem_of_mem_dropLast hr
      rcases h r hmem with hnone | ⟨-, hlast⟩
      · exact ((Rule.defect?_eq_none_iff (ht r hmem)).1 hnone).2.2
      · exact absurd hr (not_mem_dropLast p.table.nodup_rules hlast)

theorem read_text_of_isLegible (ht : ∀ r ∈ p.rules, r.alphabet.IsUntagged) (h : p.IsLegible) :
    read p.text = .ok p := by
  have hp : pieces p.text = Numeral.write p.length :: p.rules.map Rule.text := by
    rw [text_eq_joined, pieces_joined (isCut_of_isLegible ht h)]
  refine (read_eq_ok_iff hp).2 ⟨Numeral.read?_write p.length, p.rules, ?_, ?_⟩
  · refine standFor_map_text ?_
    intro r hr
    exact Rule.read_text (read_and_hasDoubleSlash_of_isLegible ht h hr).1
  · exact (RuleTable.ofList_rules p.table).symm

/-- A literal that was read from a piece has no defect, but that it may end in a slash. -/
theorem defect?_of_mem_pieces {u : Text} (hu : u ∈ pieces t) (hread : Rule.read u = .ok r) :
    r.defect? = none ∨ r.defect? = some .slash ∧ r.text.getLast? = some '/' := by
  obtain ⟨i, hi, -, -, halphabet⟩ := Rule.exists_of_read hread
  have hdouble : hasDoubleSlash r.text = false := by
    rw [Rule.hasDoubleSlash_text]
    refine hasDoubleSlash_of_infix ((isCut_pieces t).not_hasDoubleSlash u hu) ?_
    exact ⟨i ++ ['|'], [], by simp [hi]⟩
  by_cases hslash : r.text.getLast? = some '/'
  · exact Or.inr ⟨Rule.defect?_eq_slash_iff.2 ⟨halphabet, hdouble, hslash⟩, hslash⟩
  · exact Or.inl ((Rule.defect?_eq_none_iff (Alphabet.isUntagged_of_read halphabet)).2
      ⟨halphabet, hdouble, hslash⟩)

/-- A rule whose text ends in a slash was read from the last piece. -/
theorem getLast?_pieces_of_read (h : read t = .ok q) (hr : r ∈ q.rules)
    (hslash : r.text.getLast? = some '/') :
    ∃ u, (pieces t).getLast? = some u ∧ Rule.read u = .ok r := by
  obtain ⟨u, hu, hread⟩ := exists_piece_of_read h hr
  refine ⟨u, ?_, hread⟩
  by_contra hlast
  refine (isCut_pieces t).not_endsInSlash u ?_ ((Rule.getLast?_of_read hread).trans hslash)
  exact List.mem_dropLast_of_mem_of_ne_getLast? (List.mem_of_mem_tail hu) (Ne.symm hlast)

theorem getLast?_text (h : p.rules.getLast? = some r) : p.text.getLast? = r.text.getLast? := by
  rw [text_eq_joined]
  refine getLast?_joined _ ?_ ?_
  · rw [List.getLast?_cons_of_ne_nil, List.getLast?_map, h]
    · rfl
    · rintro hnil
      simp [List.map_eq_nil_iff.1 hnil] at h
  · simp [Rule.text]

/-- The last rule ends the text of a policy. So if some rule that is read back ends in a
slash, the last one does too, and both were read from the same piece. -/
theorem getLast?_rules_of_read_text (h : read p.text = .ok q) (hp : q.rules.Perm p.rules)
    (hr : r ∈ p.rules) (hslash : r.text.getLast? = some '/') : p.rules.getLast? = some r := by
  obtain ⟨s, hs⟩ : ∃ s, p.rules.getLast? = some s :=
    ⟨_, List.getLast?_eq_some_getLast (List.ne_nil_of_mem hr)⟩
  obtain ⟨u, hu, hru⟩ := getLast?_pieces_of_read h (hp.mem_iff.2 hr) hslash
  have hlast : s.text.getLast? = some '/' := by
    have hulast := (Rule.getLast?_of_read hru).trans hslash
    rw [← getLast?_text hs, ← joined_pieces p.text, getLast?_joined _ hu, hulast]
    rintro rfl
    simp at hulast
  obtain ⟨v, hv, hsv⟩ :=
    getLast?_pieces_of_read h (hp.mem_iff.2 (List.mem_of_getLast? hs)) hlast
  obtain rfl : u = v := Option.some.inj (hu.symm.trans hv)
  rw [hs, Except.ok.inj (hru.symm.trans hsv)]

theorem isLegible_of_read_text (h : read p.text = .ok q) (ha : q.agrees p = true) :
    p.IsLegible := by
  obtain ⟨-, hperm⟩ := agrees_iff_perm.1 ha
  intro r hr
  obtain ⟨u, hu, hread⟩ := exists_piece_of_read h (hperm.mem_iff.2 hr)
  rcases defect?_of_mem_pieces (List.mem_of_mem_tail hu) hread with hnone | ⟨hdefect, hslash⟩
  · exact Or.inl hnone
  · exact Or.inr ⟨hdefect, getLast?_rules_of_read_text h hperm hr hslash⟩

theorem unreadable?_eq_none_iff : r.unreadable? = none ↔ r.defect? = none := by
  rw [Rule.unreadable?, Rule.defect?]
  cases r.alphabet with
  | standard k tag => simp
  | literal cs => simp

theorem isReadable_iff : p.isReadable = true ↔ ∀ r ∈ p.rules, r.defect? = none := by
  rw [isReadable, unreadable, List.isEmpty_iff, List.filterMap_eq_nil_iff]
  simp only [unreadable?_eq_none_iff]

/-- A policy is read back from its text exactly when its literals are legible there, and then
with its rules in their order. -/
theorem read_text_iff_isLegible (ht : ∀ r ∈ p.rules, r.alphabet.IsUntagged) :
    ((∃ q, read p.text = .ok q ∧ q.agrees p = true) ↔ p.IsLegible) ∧
      (∀ q, read p.text = .ok q → q.agrees p = true → q.rules = p.rules) ∧
      (p.isReadable = true → ∃ q, read p.text = .ok q ∧ q.agrees p = true) := by
  have hback : p.IsLegible → ∃ q, read p.text = .ok q ∧ q.agrees p = true := by
    intro h
    exact ⟨p, read_text_of_isLegible ht h, agrees_iff_perm.2 ⟨rfl, List.Perm.refl _⟩⟩
  refine ⟨⟨?_, hback⟩, ?_, ?_⟩
  · rintro ⟨q, hq, ha⟩
    exact isLegible_of_read_text hq ha
  · intro q hq ha
    have hp := read_text_of_isLegible ht (isLegible_of_read_text hq ha)
    rw [hq] at hp
    rw [Except.ok.inj hp]
  · intro h
    refine hback ?_
    intro r hr
    exact Or.inl (isReadable_iff.1 h r hr)

/-- A policy whose last literal has a bar in it and ends in a slash. -/
def endingInSlash : Policy :=
  ⟨6, .ofList [⟨.atLeast 1, .ofClass .upper⟩, ⟨.atMost 3, .literal ['a', '|', '/']⟩]⟩

theorem read_text_endingInSlash :
    (∀ r ∈ endingInSlash.rules, r.alphabet.IsUntagged) ∧ endingInSlash.isReadable = false ∧
      endingInSlash.IsLegible ∧
      ∃ q, read endingInSlash.text = .ok q ∧ q.agrees endingInSlash = true := by
  have ht : ∀ r ∈ endingInSlash.rules, r.alphabet.IsUntagged := by decide
  have h : endingInSlash.IsLegible := by decide
  exact ⟨ht, by decide, h, (read_text_iff_isLegible ht).1.2 h⟩

end Policy

end PasswordPolicy
