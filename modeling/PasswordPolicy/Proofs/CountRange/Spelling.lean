import PasswordPolicy.CountRange.Reader
import PasswordPolicy.Proofs.Text.Trimming

/-!
# The spellings of a range

A range is spelled in one of four forms, with digits for its counts (`Spells`). A text in one of
these forms gives bounds (`Bounds`), and it spells a range if they are in order
(`spells_iff_bounds`). Each form is read by its first run of digits, which ends where the form has
its sign (`takeWhile_append_of_spells`), so a text with bounds is read as the check of its bounds
(`readTrimmed_of_bounds`), and any other text is malformed (`exists_bounds_or`). So a text is read
as a range exactly when it spells the range once its outer blanks are removed
(`read_eq_ok_iff`).

The only character of a spelling that is no digit is a sign, and a numeral stands before it
(`Bounds.sign`). What is read as a range has blanks besides (`not_mem_of_read`).
-/

namespace PasswordPolicy

namespace Numeral

variable {a b d e : Text} {c x : Char} {n : Nat}

/-- A run of digits, leading zeros allowed, stands for a number. -/
structure Spells (t : Text) (n : Nat) : Prop where
  ne_nil : t ≠ []
  isDigit : ∀ c ∈ t, c.isDigit = true
  value : Nat.ofDigitChars 10 t 0 = n

theorem read?_eq_some_iff {t : Text} {n : Nat} : read? t = some n ↔ Spells t n := by
  constructor
  · intro h
    obtain ⟨hne, hdigit⟩ := read?_isSome_iff.1 (Option.isSome_of_mem h)
    refine ⟨hne, hdigit, ?_⟩
    rw [read?, if_pos ⟨hne, List.all_eq_true.2 hdigit⟩] at h
    exact Option.some.inj h
  · rintro ⟨hne, hdigit, rfl⟩
    rw [read?, if_pos ⟨hne, List.all_eq_true.2 hdigit⟩]

theorem spells_write (n : Nat) : Spells (write n) n :=
  read?_eq_some_iff.1 (read?_write n)

/-- Between two runs of digits there is one place only for a character that is no digit. -/
theorem eq_of_append_cons_eq (hd : ∀ y ∈ d, y.isDigit = true) (he : ∀ y ∈ e, y.isDigit = true)
    (hc : c.isDigit = false) (h : d ++ x :: e = a ++ c :: b) : d = a ∧ x = c ∧ e = b := by
  rcases List.append_eq_append_iff.1 h with ⟨w, rfl, hw⟩ | ⟨w, rfl, hw⟩
  · cases w with
    | nil => simpa using hw
    | cons y w =>
        obtain ⟨-, rfl⟩ := List.cons.inj hw
        rw [he c (by simp)] at hc
        exact absurd hc (by simp)
  · cases w with
    | nil => simpa [eq_comm] using hw
    | cons y w =>
        obtain ⟨rfl, -⟩ := List.cons.inj hw
        rw [hd c (by simp)] at hc
        exact absurd hc (by simp)

end Numeral

namespace CountRange

variable {a b d e s t : Text} {c : Char} {n m low : Nat} {high : Option Nat} {r : CountRange}

/-- The four forms of a range: one count, a least one, a greatest one, or both. -/
inductive Spells : Text → CountRange → Prop
  | exactly {d : Text} {n : Nat} (hd : Numeral.Spells d n) : Spells d (exactly n)
  | atLeast {d : Text} {n : Nat} (hd : Numeral.Spells d n) : Spells (d ++ ['+']) (atLeast n)
  | atMost {d : Text} {n : Nat} (hd : Numeral.Spells d n) : Spells (d ++ ['-']) (atMost n)
  | between {d e : Text} {low high : Nat} (hd : Numeral.Spells d low)
      (he : Numeral.Spells e high) (h : low ≤ high) :
      Spells (d ++ '-' :: e) (between low high h)

/-- The bounds that a text in one of the four forms gives, whether they are in order or not. -/
inductive Bounds : Text → Nat → Option Nat → Prop
  | exactly {d : Text} {n : Nat} (hd : Numeral.Spells d n) : Bounds d n (some n)
  | atLeast {d : Text} {n : Nat} (hd : Numeral.Spells d n) : Bounds (d ++ ['+']) n none
  | atMost {d : Text} {n : Nat} (hd : Numeral.Spells d n) : Bounds (d ++ ['-']) 0 (some n)
  | between {d e : Text} {low high : Nat} (hd : Numeral.Spells d low)
      (he : Numeral.Spells e high) : Bounds (d ++ '-' :: e) low (some high)

/-- A text spells a range when it gives the bounds of the range. -/
theorem spells_iff_bounds : Spells t r ↔ Bounds t r.least r.most := by
  constructor
  · intro h
    cases h with
    | exactly hd => exact .exactly hd
    | atLeast hd => exact .atLeast hd
    | atMost hd => exact .atMost hd
    | between hd he _ => exact .between hd he
  · obtain ⟨low, high, hle⟩ := r
    intro h
    change Bounds t low high at h
    cases h with
    | exactly hd => exact .exactly hd
    | atLeast hd => exact .atLeast hd
    | atMost hd => exact .atMost hd
    | between hd he => exact .between hd he (hle _ rfl)

theorem takeWhile_append_of_spells (h : Numeral.Spells d n)
    (hs : ∀ c ∈ s.head?, c.isDigit = false) :
    (d ++ s).takeWhile Char.isDigit = d ∧ (d ++ s).dropWhile Char.isDigit = s := by
  rw [List.takeWhile_append_of_pos h.isDigit, List.dropWhile_append_of_pos h.isDigit]
  cases s with
  | nil => simp
  | cons c s => simp [hs c (by simp)]

theorem readTrimmed_exactly (h : Numeral.Spells d n) : readTrimmed d = .ok (exactly n) := by
  obtain ⟨htake, hdrop⟩ := takeWhile_append_of_spells (s := []) h (by simp)
  rw [List.append_nil] at htake hdrop
  rw [readTrimmed, htake, hdrop, Numeral.read?_eq_some_iff.2 h]

theorem readTrimmed_atLeast (h : Numeral.Spells d n) :
    readTrimmed (d ++ ['+']) = .ok (atLeast n) := by
  obtain ⟨htake, hdrop⟩ := takeWhile_append_of_spells (s := ['+']) h (by simp)
  rw [readTrimmed, htake, hdrop, Numeral.read?_eq_some_iff.2 h]
  rfl

theorem readTrimmed_atMost (h : Numeral.Spells d n) :
    readTrimmed (d ++ ['-']) = .ok (atMost n) := by
  obtain ⟨htake, hdrop⟩ := takeWhile_append_of_spells (s := ['-']) h (by simp)
  rw [readTrimmed, htake, hdrop, Numeral.read?_eq_some_iff.2 h]
  rfl

theorem readTrimmed_between (h : Numeral.Spells d n) (he : Numeral.Spells e m) :
    readTrimmed (d ++ '-' :: e) = check n (some m) := by
  obtain ⟨htake, hdrop⟩ := takeWhile_append_of_spells (s := '-' :: e) h (by simp)
  have hne : e ≠ [] := he.ne_nil
  rw [readTrimmed, htake, hdrop, Numeral.read?_eq_some_iff.2 h]
  rw [← Numeral.read?_eq_some_iff] at he
  split <;> simp_all

/-- A text with bounds is read as the range with these bounds, if there is one. -/
theorem readTrimmed_of_bounds (h : Bounds t low high) : readTrimmed t = check low high := by
  cases h with
  | exactly hd => exact (readTrimmed_exactly hd).trans (check_bounds (.exactly _)).symm
  | atLeast hd => exact (readTrimmed_atLeast hd).trans (check_bounds (.atLeast _)).symm
  | atMost hd => exact (readTrimmed_atMost hd).trans (check_bounds (.atMost _)).symm
  | between hd he => exact readTrimmed_between hd he

/-- A text that gives no bounds is malformed. -/
theorem exists_bounds_or (t : Text) :
    (∃ low high, Bounds t low high) ∨ readTrimmed t = .error (.malformedRange t) := by
  have ht : t.takeWhile Char.isDigit ++ t.dropWhile Char.isDigit = t :=
    List.takeWhile_append_dropWhile
  rw [readTrimmed]
  split
  next n hn hrest =>
    refine .inl ⟨n, some n, ?_⟩
    rw [← ht, hrest, List.append_nil]
    exact .exactly (Numeral.read?_eq_some_iff.1 hn)
  next n hn hrest =>
    refine .inl ⟨n, none, ?_⟩
    rw [← ht, hrest]
    exact .atLeast (Numeral.read?_eq_some_iff.1 hn)
  next n hn hrest =>
    refine .inl ⟨0, some n, ?_⟩
    rw [← ht, hrest]
    exact .atMost (Numeral.read?_eq_some_iff.1 hn)
  next low e _ hlow hrest =>
    split
    next high hhigh =>
      refine .inl ⟨low, some high, ?_⟩
      rw [← ht, hrest]
      exact .between (Numeral.read?_eq_some_iff.1 hlow) (Numeral.read?_eq_some_iff.1 hhigh)
    next => exact .inr rfl
  next => exact .inr rfl

theorem readTrimmed_eq_ok_iff : readTrimmed t = .ok r ↔ Bounds t r.least r.most := by
  constructor
  · intro h
    rcases exists_bounds_or t with ⟨low, high, hbounds⟩ | herror
    · rw [readTrimmed_of_bounds hbounds, check_eq_ok_iff] at h
      obtain ⟨rfl, rfl⟩ := h
      exact hbounds
    · rw [herror] at h
      exact absurd h (by simp)
  · intro h
    rw [readTrimmed_of_bounds h, check_bounds]

/-- What is read as a range spells it, but for blanks around it. -/
theorem read_eq_ok_iff : read t = .ok r ↔ Spells (Text.trim t) r := by
  rw [read, readTrimmed_eq_ok_iff, spells_iff_bounds]

/-- A character that is no digit is a sign, and what stands before it is a numeral. -/
theorem Bounds.sign (h : Bounds t low high) (ht : t = a ++ c :: b) (hc : c.isDigit = false) :
    (c = '+' ∨ c = '-') ∧ ∃ n, Numeral.Spells a n := by
  cases h with
  | exactly hd =>
      rw [hd.isDigit c (by simp [ht])] at hc
      exact absurd hc (by simp)
  | atLeast hd =>
      obtain ⟨rfl, rfl, -⟩ := Numeral.eq_of_append_cons_eq hd.isDigit (by simp) hc ht
      exact ⟨.inl rfl, _, hd⟩
  | atMost hd =>
      obtain ⟨rfl, rfl, -⟩ := Numeral.eq_of_append_cons_eq hd.isDigit (by simp) hc ht
      exact ⟨.inr rfl, _, hd⟩
  | between hd he =>
      obtain ⟨rfl, rfl, -⟩ := Numeral.eq_of_append_cons_eq hd.isDigit he.isDigit hc ht
      exact ⟨.inr rfl, _, hd⟩

theorem isDigit_or_sign_of_spells (h : Spells t r) (hc : c ∈ t) :
    c.isDigit = true ∨ c = '+' ∨ c = '-' := by
  obtain ⟨a, b, ht⟩ := List.append_of_mem hc
  cases hdigit : c.isDigit with
  | true => exact .inl rfl
  | false => exact .inr ((spells_iff_bounds.1 h).sign ht hdigit).1

theorem not_mem_of_spells (hd : c.isDigit = false) (hp : c ≠ '+') (hm : c ≠ '-')
    (h : Spells t r) : c ∉ t := by
  intro hc
  rcases isDigit_or_sign_of_spells h hc with hc | hc | hc
  · rw [hd] at hc
    exact absurd hc (by simp)
  · exact hp hc
  · exact hm hc

/-- A character that is no blank, digit or sign does not occur in what is read as a range. -/
theorem not_mem_of_read (hb : Text.isBlank c = false) (hd : c.isDigit = false)
    (hp : c ≠ '+') (hm : c ≠ '-') (h : read t = .ok r) : c ∉ t := by
  intro hc
  exact not_mem_of_spells hd hp hm (read_eq_ok_iff.1 h) (Text.mem_trim hc hb)

end CountRange

end PasswordPolicy
