import PasswordPolicy.Proofs.Policy.Reading

/-!
# Which error is reported

A text that is not read as a policy has often more than one thing wrong with it. What is
reported is found by its pieces (`Reports`). The first piece of a rule without a bar comes before
all else, wherever it stands, then a length that is no numeral, and then the first rule that
cannot be read, its range before its alphabet. The division of the text says the same about
the first of these alone (`divide_eq_error_iff`), and otherwise gives each piece of a rule in two
parts, cut at its first bar (`divide_eq_ok_iff`).
-/

namespace PasswordPolicy

namespace Rule

theorem readParts_eq_error_iff {i a : Text} {e : Error} :
    readParts i a = .error e ↔ CountRange.read i = .error e ∨
      ∃ r, CountRange.read i = .ok r ∧ Alphabet.read a = .error e := by
  rw [readParts, bind_eq_error_iff]
  refine or_congr_right (exists_congr fun r => and_congr_right fun _ => ?_)
  rw [bind_eq_error_iff]
  simp [pure, Except.pure]

end Rule

namespace Policy

open Text

variable {t u : Text} {us gs : List Text} {e : Error}

/-- Once the text is divided, the length is read and then the rules in their order. -/
theorem read_eq_error_iff_of_bar (h : pieces t = u :: us) (hbars : ∀ g ∈ rulePieces us, '|' ∈ g) :
    read t = .error e ↔
      ¬(u ≠ [] ∧ ∀ c ∈ u, c.isDigit = true) ∧ e = .malformedLength u ∨
        (u ≠ [] ∧ ∀ c ∈ u, c.isDigit = true) ∧
          (rulePieces us).mapM Rule.read = .error e := by
  rw [← Numeral.read?_isSome_iff]
  cases hn : Numeral.read? u with
  | none =>
      rw [read_eq_malformedLength h hbars hn]
      simp [eq_comm]
  | some n =>
      rw [read_eq_map_mapM h hbars hn, map_eq_error_iff]
      simp

/-- The error that is reported for a text whose first piece is `u` and whose pieces of rules
are `gs`. -/
inductive Reports (u : Text) (gs : List Text) : Error → Prop
  /-- A rule has no bar. -/
  | rule {g : Text} (hg : gs.find? (fun g => '|' ∉ g) = some g) :
      Reports u gs (.malformedRule (if g = [] then separator else g))
  /-- Every rule has its bar, and the length is not one or more digits. -/
  | length (hbars : ∀ g ∈ gs, '|' ∈ g) (hu : ¬(u ≠ [] ∧ ∀ c ∈ u, c.isDigit = true)) :
      Reports u gs (.malformedLength u)
  /-- The length can be read, and the range of the first rule that cannot be read is at
  fault. -/
  | range {i a : Text} {e : Error} (hbars : ∀ g ∈ gs, '|' ∈ g)
      (hu : u ≠ [] ∧ ∀ c ∈ u, c.isDigit = true)
      (hg : gs.find? (fun g => !(Rule.read g).isOk) = some (i ++ '|' :: a)) (hi : '|' ∉ i)
      (he : CountRange.read i = .error e) : Reports u gs e
  /-- The length can be read, and of the first rule that cannot be read the range can. -/
  | alphabet {i a : Text} {r : CountRange} {e : Error} (hbars : ∀ g ∈ gs, '|' ∈ g)
      (hu : u ≠ [] ∧ ∀ c ∈ u, c.isDigit = true)
      (hg : gs.find? (fun g => !(Rule.read g).isOk) = some (i ++ '|' :: a)) (hi : '|' ∉ i)
      (hr : CountRange.read i = .ok r) (he : Alphabet.read a = .error e) : Reports u gs e

theorem read_eq_error_iff (h : pieces t = u :: us) :
    read t = .error e ↔ Reports u (rulePieces us) e := by
  by_cases hbars : ∀ g ∈ rulePieces us, '|' ∈ g
  · rw [read_eq_error_iff_of_bar h hbars, mapM_eq_error_iff]
    constructor
    · rintro (⟨hu, rfl⟩ | ⟨hu, g, hg, he⟩)
      · exact .length hbars hu
      · obtain ⟨i, a, rfl, hi⟩ :=
          List.eq_append_cons_of_mem (hbars g (List.mem_of_find?_eq_some hg))
        rw [Rule.read_append hi] at he
        rcases Rule.readParts_eq_error_iff.1 he with he | ⟨r, hr, he⟩
        · exact .range hbars hu hg hi he
        · exact .alphabet hbars hu hg hi hr he
    · rintro (hg | ⟨-, hu⟩ | ⟨-, hu, hg, hi, he⟩ | ⟨-, hu, hg, hi, hr, he⟩)
      · have hbar := hbars _ (List.mem_of_find?_eq_some hg)
        simpa [hbar] using List.find?_some hg
      · exact .inl ⟨hu, rfl⟩
      · refine .inr ⟨hu, _, hg, ?_⟩
        rw [Rule.read_append hi]
        exact Rule.readParts_eq_error_iff.2 (.inl he)
      · refine .inr ⟨hu, _, hg, ?_⟩
        rw [Rule.read_append hi]
        exact Rule.readParts_eq_error_iff.2 (.inr ⟨_, hr, he⟩)
  · have hdivide : ¬∃ d, divide t = .ok d := mt (exists_divide_iff h).1 hbars
    have hread : read t = .error e ↔ divide t = .error e := by
      rw [read, bind_eq_error_iff, or_iff_left_iff_imp]
      rintro ⟨d, hd, -⟩
      exact absurd ⟨d, hd⟩ hdivide
    rw [hread, divide_eq_error_iff h]
    constructor
    · rintro ⟨g, hg, rfl⟩
      exact .rule hg
    · rintro (hg | ⟨hall, -⟩ | ⟨hall, -, -, -, -⟩ | ⟨hall, -, -, -, -, -⟩)
      · exact ⟨_, hg, rfl⟩
      all_goals exact absurd hall hbars

/-- The division of a text goes by the pieces between its separators, each found as far to the
left as possible. The first piece is the length, each later one is cut at its first bar, and
nothing need follow the last separator. The first piece of a rule without a bar is an error. So
of all that is wrong with a text this is what reading it reports first, before the length and
then the rules from left to right, in each of them the range before the alphabet. -/
theorem divides_by_pieces (t : Text) :
    ∃ u us, pieces t = u :: us ∧ IsCut (u :: us) ∧ joined separator (u :: us) = t ∧
      (∀ d, divide t = .ok d ↔ d.length = u ∧
        List.Forall₂ (fun g x => g = x.1 ++ '|' :: x.2 ∧ '|' ∉ x.1) (rulePieces us) d.rules) ∧
      (∀ e, divide t = .error e ↔
        ∃ g, (rulePieces us).find? (fun g => '|' ∉ g) = some g ∧
          e = .malformedRule (if g = [] then separator else g)) ∧
      ∀ e, read t = .error e ↔ Reports u (rulePieces us) e := by
  obtain ⟨u, us, hu⟩ := List.exists_cons_of_ne_nil (pieces_ne_nil t)
  refine ⟨u, us, hu, hu ▸ isCut_pieces t, ?_, fun d => divide_eq_ok_iff hu,
    fun e => divide_eq_error_iff hu, fun e => read_eq_error_iff hu⟩
  rw [← hu]
  exact joined_pieces t

-- The length, a range and an alphabet are at fault as well.
example : read "x//2-1|a//1///b//0|::".toList = .error (.malformedRule "1".toList) :=
  rfl

end Policy

end PasswordPolicy
