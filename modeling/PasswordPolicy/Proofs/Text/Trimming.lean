import Mathlib.Data.List.TakeWhile
import PasswordPolicy.Text.Blank

/-!
# What is left of a text when it is trimmed

A text divides into blanks, a text with no blank at either end, and blanks again. There is only
one such division, so it says all about what is left when the text is trimmed (`trim_eq_iff`):
nothing but blanks is lost, and what has no blanks stays as it is.
-/

namespace PasswordPolicy

namespace Text

variable {c : Char} {t u : Text}

/-- A text without the blanks at its ends. -/
structure Trims (t u : Text) : Prop where
  padded : ∃ p s, t = p ++ u ++ s ∧ (∀ c ∈ p, isBlank c = true) ∧ ∀ c ∈ s, isBlank c = true
  head : ∀ c ∈ u.head?, isBlank c = false
  last : ∀ c ∈ u.getLast?, isBlank c = false

theorem exists_append_trimStart (t : Text) :
    ∃ p, t = p ++ trimStart t ∧ ∀ c ∈ p, isBlank c = true :=
  ⟨t.takeWhile isBlank, List.takeWhile_append_dropWhile.symm, fun _ => List.mem_takeWhile_imp⟩

theorem isBlank_of_mem_head?_trimStart (h : c ∈ (trimStart t).head?) : isBlank c = false := by
  have hnot := List.head?_dropWhile_not isBlank t
  rw [← trimStart, h] at hnot
  exact hnot

theorem trimStart_eq_self (h : ∀ c ∈ t.head?, isBlank c = false) : trimStart t = t := by
  cases t with
  | nil => rfl
  | cons c t =>
      rw [trimStart, List.dropWhile_cons_of_neg]
      simp [h c rfl]

theorem trims_trim (t : Text) : Trims t (trim t) := by
  obtain ⟨p, hp, hpb⟩ := exists_append_trimStart t
  obtain ⟨s, hs, hsb⟩ := exists_append_trimStart (trimStart t).reverse
  have hsplit : trimStart t = trim t ++ s.reverse := by
    rw [← List.reverse_reverse (trimStart t), hs, List.reverse_append]
    rfl
  refine ⟨⟨p, s.reverse, ?_, hpb, fun c hc => hsb c (List.mem_reverse.1 hc)⟩, ?_, ?_⟩
  · rw [List.append_assoc, ← hsplit]
    exact hp
  · intro c hc
    refine isBlank_of_mem_head?_trimStart (t := t) ?_
    rw [hsplit, List.head?_append, Option.mem_def.1 hc]
    rfl
  · intro c hc
    rw [trim, List.getLast?_reverse] at hc
    exact isBlank_of_mem_head?_trimStart hc

/-- Trimming gives the one text that has blanks around it and none at its own ends. -/
theorem trim_eq_iff : trim t = u ↔ Trims t u := by
  constructor
  · rintro rfl
    exact trims_trim t
  · rintro ⟨⟨p, s, rfl, hp, hs⟩, hhead, hlast⟩
    rw [trim_pad hp hs, trim, trimStart_eq_self hhead, trimStart_eq_self, List.reverse_reverse]
    rwa [List.head?_reverse]

theorem trim_eq_self (h : ∀ c ∈ t, isBlank c = false) : trim t = t :=
  trim_eq_iff.2 ⟨⟨[], [], by simp⟩, fun c hc => h c (List.mem_of_mem_head? hc),
    fun c hc => h c (List.mem_of_mem_getLast? hc)⟩

/-- Only blanks are lost when a text is trimmed. -/
theorem mem_trim (hc : c ∈ t) (hb : isBlank c = false) : c ∈ trim t := by
  obtain ⟨p, s, ht, hp, hs⟩ := (trims_trim t).padded
  have hcp : c ∉ p := fun h => Bool.false_ne_true (hb.symm.trans (hp c h))
  have hcs : c ∉ s := fun h => Bool.false_ne_true (hb.symm.trans (hs c h))
  rw [ht] at hc
  simpa [hcp, hcs] using hc

theorem trim_infix (t : Text) : trim t <:+: t := by
  obtain ⟨p, s, ht, -, -⟩ := (trims_trim t).padded
  exact ⟨p, s, ht.symm⟩

theorem isBlank_of_isDigit (h : c.isDigit = true) : isBlank c = false := by
  have hc : 48 ≤ c.toNat ∧ c.toNat ≤ 57 := Char.isDigit_iff_toNat.1 h
  simp [isBlank, blankRuns]
  omega

end Text

end PasswordPolicy
