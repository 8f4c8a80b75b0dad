import Mathlib.Data.List.Basic
import PasswordPolicy.Alphabet.Literal

/-!
# The pieces of a text between double slashes

`pieces t` cuts a text at its double slashes, each found as far to the left as possible:
of three slashes in a row the first two are the separator and the third begins the next
piece. The pieces make up the text again (`joined_pieces`), no piece has a double slash in
it, and no piece but the last ends in a slash (`isCut_pieces`). There is no other way to
divide a text like that (`pieces_joined`).
-/

namespace PasswordPolicy

namespace Text

/-- The pieces of a text between its double slashes. -/
def pieces : Text → List Text
  | [] => [[]]
  | '/' :: '/' :: t => [] :: pieces t
  | c :: t => (pieces t).modifyHead (c :: ·)

/-- Pieces as a cut from the left leaves them. -/
structure IsCut (ps : List Text) : Prop where
  ne_nil : ps ≠ []
  not_hasDoubleSlash : ∀ p ∈ ps, hasDoubleSlash p = false
  not_endsInSlash : ∀ p ∈ ps.dropLast, p.getLast? ≠ some '/'

variable {c : Char} {p t : Text} {ps : List Text}

theorem pieces_slashes (t : Text) : pieces ('/' :: '/' :: t) = [] :: pieces t := rfl

theorem pieces_cons (h : ∀ u, c = '/' → t ≠ '/' :: u) :
    pieces (c :: t) = (pieces t).modifyHead (c :: ·) := by
  rw [pieces]
  intro u hc ht
  exact h u hc ht

theorem hasDoubleSlash_cons (h : ∀ u, c = '/' → t ≠ '/' :: u) :
    hasDoubleSlash (c :: t) = hasDoubleSlash t := by
  rw [hasDoubleSlash]
  intro u hc ht
  exact h u hc ht

theorem not_slashes_of_hasDoubleSlash (h : hasDoubleSlash (c :: t) = false) :
    ∀ u, c = '/' → t ≠ '/' :: u := by
  rintro u rfl rfl
  rw [hasDoubleSlash] at h
  exact absurd h (by simp)

theorem hasDoubleSlash_append (h : '/' ∉ p) (t : Text) :
    hasDoubleSlash (p ++ t) = hasDoubleSlash t := by
  induction p with
  | nil => rfl
  | cons c p ih =>
      rw [List.mem_cons, not_or] at h
      rw [List.cons_append, hasDoubleSlash_cons fun u hc => absurd hc.symm h.1, ih h.2]

theorem hasDoubleSlash_of_not_mem (h : '/' ∉ p) : hasDoubleSlash p = false := by
  rw [← List.append_nil p, hasDoubleSlash_append h]
  rfl

theorem hasDoubleSlash_eq_false_iff : hasDoubleSlash t = false ↔ ¬['/', '/'] <:+: t := by
  rw [← Bool.not_eq_true, hasDoubleSlash_iff]
  refine not_congr ⟨?_, ?_⟩
  · rintro ⟨a, b, rfl⟩
    exact ⟨a, b, by simp⟩
  · rintro ⟨a, b, rfl⟩
    exact ⟨a, b, by simp⟩

/-- A part of a text has no double slash if the text has none. -/
theorem hasDoubleSlash_of_infix (h : hasDoubleSlash t = false) (hp : p <:+: t) :
    hasDoubleSlash p = false := by
  rw [hasDoubleSlash_eq_false_iff] at h ⊢
  intro hslashes
  exact h (hslashes.trans hp)

theorem pieces_ne_nil (t : Text) : pieces t ≠ [] := by
  fun_induction pieces t with
  | case1 => simp
  | case2 => simp
  | case3 c t _ ih => simpa using ih

theorem joined_cons (s p : Text) (h : ps ≠ []) :
    joined s (p :: ps) = p ++ s ++ joined s ps := by
  cases ps with
  | nil => exact absurd rfl h
  | cons q ps => rfl

theorem joined_cons_cons (s : Text) (c : Char) (p : Text) (ps : List Text) :
    joined s ((c :: p) :: ps) = c :: joined s (p :: ps) := by
  cases ps <;> rfl

/-- Joined texts after a first one are each put after a separator. -/
theorem joined_cons_eq_append (s p : Text) (ps : List Text) :
    joined s (p :: ps) = p ++ ps.flatMap (s ++ ·) := by
  induction ps generalizing p with
  | nil => simp [joined]
  | cons q ps ih =>
      rw [joined_cons _ _ (by simp), ih, List.flatMap_cons]
      simp

theorem joined_pieces (t : Text) : joined ['/', '/'] (pieces t) = t := by
  fun_induction pieces t with
  | case1 => rfl
  | case2 t ih =>
      rw [joined_cons _ _ (pieces_ne_nil t), ih]
      rfl
  | case3 c t _ ih =>
      obtain ⟨p, ps, hp⟩ := List.exists_cons_of_ne_nil (pieces_ne_nil t)
      rw [hp] at ih
      rw [hp, List.modifyHead_cons, joined_cons_cons, ih]

/-- A character before the first piece makes no double slash with what follows it. -/
theorem IsCut.cons (h : IsCut (p :: ps))
    (hc : ∀ u, c = '/' → joined ['/', '/'] (p :: ps) ≠ '/' :: u) : IsCut ((c :: p) :: ps) where
  ne_nil := by simp
  not_hasDoubleSlash := by
    intro q hq
    rcases List.mem_cons.1 hq with rfl | hq
    · rw [hasDoubleSlash_cons]
      · exact h.not_hasDoubleSlash p (by simp)
      · rintro u hslash rfl
        exact hc _ hslash (joined_cons_cons _ _ _ _)
    · exact h.not_hasDoubleSlash q (by simp [hq])
  not_endsInSlash := by
    cases ps with
    | nil => simp
    | cons q ps =>
        intro r hr
        rw [List.dropLast_cons_cons] at hr
        rcases List.mem_cons.1 hr with rfl | hr
        · cases p with
          | nil =>
              intro hslash
              exact hc _ (by simpa using hslash) rfl
          | cons d p =>
              rw [List.getLast?_cons_cons]
              exact h.not_endsInSlash (d :: p) (by simp)
        · exact h.not_endsInSlash r (by simp [hr])

theorem isCut_pieces (t : Text) : IsCut (pieces t) := by
  fun_induction pieces t with
  | case1 => exact ⟨by simp, by simp [hasDoubleSlash], by simp⟩
  | case2 t ih =>
      refine ⟨by simp, ?_, ?_⟩
      · intro p hp
        rcases List.mem_cons.1 hp with rfl | hp
        · rfl
        · exact ih.not_hasDoubleSlash p hp
      · intro p hp
        rw [List.dropLast_cons_of_ne_nil ih.ne_nil] at hp
        rcases List.mem_cons.1 hp with rfl | hp
        · simp
        · exact ih.not_endsInSlash p hp
  | case3 c t h ih =>
      have ht := joined_pieces t
      obtain ⟨p, ps, hp⟩ := List.exists_cons_of_ne_nil (pieces_ne_nil t)
      rw [hp] at ih ht
      rw [hp, List.modifyHead_cons]
      refine ih.cons ?_
      intro u hc hu
      exact h u hc (ht.symm.trans hu)

theorem pieces_of_not_hasDoubleSlash (h : hasDoubleSlash p = false) : pieces p = [p] := by
  induction p with
  | nil => rfl
  | cons c p ih =>
      have hc := not_slashes_of_hasDoubleSlash h
      rw [hasDoubleSlash_cons hc] at h
      rw [pieces_cons hc, ih h, List.modifyHead_cons]

/-- A text without a double slash that does not end in a slash is the first piece of what
begins with it and a separator. -/
theorem pieces_append (h : hasDoubleSlash p = false) (hp : p.getLast? ≠ some '/') (t : Text) :
    pieces (p ++ '/' :: '/' :: t) = p :: pieces t := by
  induction p with
  | nil => rfl
  | cons c p ih =>
      have hc := not_slashes_of_hasDoubleSlash h
      rw [hasDoubleSlash_cons hc] at h
      cases p with
      | nil =>
          have hne : c ≠ '/' := by simpa using hp
          rw [List.singleton_append, pieces_cons (fun u hslash => absurd hslash hne)]
          rfl
      | cons d p =>
          rw [List.getLast?_cons_cons] at hp
          rw [List.cons_append, pieces_cons, ih h hp, List.modifyHead_cons]
          intro u hslash hd
          exact hc p hslash (by rw [(List.cons.inj hd).1])

/-- Pieces as a cut from the left leaves them are the pieces of the text they make up. -/
theorem pieces_joined (h : IsCut ps) : pieces (joined ['/', '/'] ps) = ps := by
  induction ps with
  | nil => exact absurd rfl h.ne_nil
  | cons p ps ih =>
      have hp := h.not_hasDoubleSlash p (by simp)
      by_cases hps : ps = []
      · subst hps
        exact pieces_of_not_hasDoubleSlash hp
      · have hlast := h.not_endsInSlash
        rw [List.dropLast_cons_of_ne_nil hps] at hlast
        have hrest : IsCut ps := ⟨hps, fun q hq => h.not_hasDoubleSlash q (by simp [hq]),
          fun q hq => hlast q (by simp [hq])⟩
        rw [joined_cons _ _ hps, List.append_assoc, List.cons_append, List.singleton_append,
          pieces_append hp (hlast p (by simp)), ih hrest]

theorem suffix_joined (s : Text) (h : ps.getLast? = some p) : p <:+ joined s ps := by
  induction ps with
  | nil => simp at h
  | cons q ps ih =>
      by_cases hps : ps = []
      · subst hps
        obtain rfl : q = p := by simpa using h
        exact List.suffix_rfl
      · rw [List.getLast?_cons_of_ne_nil hps] at h
        rw [joined_cons s q hps]
        exact (ih h).trans (List.suffix_append _ _)

theorem getLast?_joined (s : Text) (h : ps.getLast? = some p) (hp : p ≠ []) :
    (joined s ps).getLast? = p.getLast? := by
  obtain ⟨a, ha⟩ := suffix_joined s h
  rw [← ha, List.getLast?_append_of_ne_nil _ hp]

end Text

end PasswordPolicy
