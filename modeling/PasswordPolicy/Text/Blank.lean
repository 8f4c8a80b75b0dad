import PasswordPolicy.Text.Basic

/-!
# Blank characters

The blank characters are the white space of Unicode together with the four
information separators U+001C to U+001F. `trim` removes them from both ends of
a text. `trim_pad` says that blanks added at the ends make no difference.
-/

namespace PasswordPolicy

namespace Text

/-- The first and last code points of the runs of blank characters. -/
def blankRuns : List (Nat × Nat) :=
  [(0x09, 0x0D), (0x1C, 0x20), (0x85, 0x85), (0xA0, 0xA0), (0x1680, 0x1680),
   (0x2000, 0x200A), (0x2028, 0x2029), (0x202F, 0x202F), (0x205F, 0x205F),
   (0x3000, 0x3000)]

/-- A blank character lies in one of the runs. -/
def isBlank (c : Char) : Bool :=
  blankRuns.any fun run => run.1 ≤ c.toNat && c.toNat ≤ run.2

/-- The text without its leading blanks. -/
def trimStart (t : Text) : Text := t.dropWhile isBlank

/-- The text without the blanks at either end. -/
def trim (t : Text) : Text := (trimStart (trimStart t).reverse).reverse

theorem trimStart_append {p : Text} (h : ∀ c ∈ p, isBlank c = true) (t : Text) :
    trimStart (p ++ t) = trimStart t := by
  induction p with
  | nil => rfl
  | cons c p ih =>
    have hc : isBlank c = true := h c (by simp)
    rw [List.cons_append, trimStart, List.dropWhile_cons_of_pos hc]
    exact ih fun x hx => h x (by simp [hx])

theorem trimStart_eq_nil {t : Text} (h : ∀ c ∈ t, isBlank c = true) :
    trimStart t = [] := by
  simpa [trimStart] using trimStart_append h []

theorem trimStart_append_of_eq_nil {t : Text} (h : trimStart t = []) (s : Text) :
    trimStart (t ++ s) = trimStart s := by
  simp only [trimStart, List.dropWhile_append] at h ⊢
  simp [h]

theorem trimStart_append_of_ne_nil {t : Text} (h : trimStart t ≠ []) (s : Text) :
    trimStart (t ++ s) = trimStart t ++ s := by
  simp only [trimStart, List.dropWhile_append] at h ⊢
  simp [h]

/-- Blanks added at either end of a text make no difference to the trimmed
text. -/
theorem trim_pad {p s : Text} (hp : ∀ c ∈ p, isBlank c = true)
    (hs : ∀ c ∈ s, isBlank c = true) (t : Text) :
    trim (p ++ t ++ s) = trim t := by
  have hr : ∀ c ∈ s.reverse, isBlank c = true := fun c hc => hs c (by simpa using hc)
  rw [trim, List.append_assoc, trimStart_append hp]
  by_cases h : trimStart t = []
  · rw [trim, h, trimStart_append_of_eq_nil h, trimStart_eq_nil hs]
  · rw [trimStart_append_of_ne_nil h, List.reverse_append, trimStart_append hr, trim]

end Text

end PasswordPolicy
