import PasswordPolicy.Text.Basic

/-!
# Terminal control sequences

A control sequence is an escape character and an opening bracket, then
parameters (digits, semicolons and question marks), then one letter.
`withoutControls` removes the control sequences from a text that goes to
something other than a terminal. `withoutControls_of_not_mem` says that a text
without an escape character stays as it is.
-/

namespace PasswordPolicy

namespace Text

/-- The character that begins a control sequence. -/
def escape : Char := '\x1b'

/-- A character that may stand among the parameters of a control sequence. -/
def isParameter (c : Char) : Bool := c.isDigit || c == ';' || c == '?'

/-- What follows a control sequence that begins the text, if one does. -/
def afterControl? : Text → Option Text
  | c :: '[' :: t =>
    if c = escape then
      match t.dropWhile isParameter with
      | final :: rest => if final.isAlpha then some rest else none
      | [] => none
    else none
  | _ => none

theorem length_lt_of_afterControl? {t rest : Text} (h : afterControl? t = some rest) :
    rest.length < t.length := by
  unfold afterControl? at h
  split at h
  case h_2 => simp at h
  case h_1 c t =>
    split at h
    · have hle := (List.dropWhile_sublist isParameter (l := t)).length_le
      split at h
      · rename_i final tail heq
        split at h
        · cases h
          rw [heq] at hle
          simp at hle ⊢
          omega
        · simp at h
      · simp at h
    · simp at h

/-- The text without its control sequences. -/
def withoutControls (t : Text) : Text :=
  match _h : afterControl? t with
  | some rest => withoutControls rest
  | none =>
    match t with
    | [] => []
    | c :: t => c :: withoutControls t
termination_by t.length
decreasing_by
  · exact length_lt_of_afterControl? ‹_›
  · simp

theorem afterControl?_of_ne_escape {c : Char} (h : c ≠ escape) (t : Text) :
    afterControl? (c :: t) = none := by
  unfold afterControl?
  split
  · rename_i heq
    obtain ⟨rfl, -⟩ := List.cons.inj heq
    simp [h]
  · rfl

theorem withoutControls_nil : withoutControls [] = [] := by
  unfold withoutControls
  rfl

theorem withoutControls_cons_of_ne_escape {c : Char} (h : c ≠ escape) (t : Text) :
    withoutControls (c :: t) = c :: withoutControls t := by
  rw [withoutControls]
  split
  · rename_i heq
    simp [afterControl?_of_ne_escape h] at heq
  · rfl

/-- A text without an escape character holds no control sequence. -/
theorem withoutControls_of_not_mem {t : Text} (h : escape ∉ t) :
    withoutControls t = t := by
  induction t with
  | nil => exact withoutControls_nil
  | cons c t ih =>
    rw [withoutControls_cons_of_ne_escape (fun hc => h (by simp [hc])),
      ih fun ht => h (by simp [ht])]

end Text

end PasswordPolicy
