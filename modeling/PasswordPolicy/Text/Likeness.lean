import PasswordPolicy.Text.Basic

/-!
# Likeness

How alike two texts are is a matter of what they have in common: the longest run
of characters that occurs in both, and, in the same way, what the parts before the
run and the parts after it have in common. The run lies within the left text
(`left_add_length_longest_le`), so these parts are shorter. Of several longest runs
the one counts that begins first in the left text, and of those the one that begins
first in the right text, so the two texts are not interchangeable.
-/

namespace PasswordPolicy

namespace Text

/-- The length of the longest common beginning of two texts. -/
def agreement : Text → Text → Nat
  | x :: a, y :: b => if x = y then agreement a b + 1 else 0
  | _, _ => 0

/-- A run of characters of two texts: where it begins in the left one and in the
right one, and its length. -/
structure Run where
  left : Nat
  right : Nat
  length : Nat

namespace Run

def empty : Run := ⟨0, 0, 0⟩

/-- The longer of two runs, and of two equally long ones the first. -/
def longer (r s : Run) : Run := if r.length < s.length then s else r

/-- A run one character further on in the left text. -/
def shiftLeft (r : Run) : Run := { r with left := r.left + 1 }

def shiftRight (r : Run) : Run := { r with right := r.right + 1 }

/-- The longest run of two texts that begins with the left one. -/
def initial (a : Text) : Text → Run
  | [] => empty
  | y :: b => longer ⟨0, 0, agreement a (y :: b)⟩ (initial a b).shiftRight

/-- The longest run of two texts. -/
def longest : Text → Text → Run
  | [], _ => empty
  | x :: a, b => longer (initial (x :: a) b) (longest a b).shiftLeft

end Run

theorem agreement_le_length (a b : Text) : agreement a b ≤ a.length := by
  fun_induction agreement a b <;> simp_all

namespace Run

/-- What holds of two runs holds of the longer one. -/
theorem longer_induction {p : Run → Prop} {r s : Run} (hr : p r) (hs : p s) :
    p (r.longer s) := by
  unfold longer
  split
  · exact hs
  · exact hr

theorem left_initial (a b : Text) : (initial a b).left = 0 := by
  induction b with
  | nil => rfl
  | cons y b ih => exact longer_induction (p := fun r => r.left = 0) rfl ih

theorem length_initial_le (a b : Text) : (initial a b).length ≤ a.length := by
  induction b with
  | nil => simp [initial, empty]
  | cons y b ih =>
    exact longer_induction (p := fun r => r.length ≤ a.length) (agreement_le_length a (y :: b)) ih

/-- The longest run lies within the left text. -/
theorem left_add_length_longest_le (a b : Text) :
    (longest a b).left + (longest a b).length ≤ a.length := by
  induction a with
  | nil => simp [longest, empty]
  | cons x a ih =>
    refine longer_induction (p := fun r => r.left + r.length ≤ (x :: a).length) ?_ ?_
    · simpa [left_initial] using length_initial_le (x :: a) b
    · simp only [shiftLeft, List.length_cons]
      omega

end Run

/-- How many characters two texts have in common. -/
def common (a b : Text) : Nat :=
  if (Run.longest a b).length = 0 then 0
  else
    let r := Run.longest a b
    common (a.take r.left) (b.take r.right) + r.length +
      common (a.drop (r.left + r.length)) (b.drop (r.right + r.length))
termination_by a.length
decreasing_by
  all_goals
    have := Run.left_add_length_longest_le a b
    simp only [List.length_take, List.length_drop]
    omega

/-- How alike two texts are: the part of the characters of both that they have in
common, which is 1 for equal texts and 0 for texts that share no character. -/
def likeness (a b : Text) : Rat := (2 * common a b : Nat) / (a.length + b.length : Nat)

/-- Whether `a` comes before `b` among the texts that are like `t`: the more alike
comes first, and of two that are equally alike the later one in alphabetical
order. -/
def precedes (t a b : Text) : Bool :=
  likeness b t < likeness a t || (likeness a t == likeness b t && alphabetical b a)

/-- Of a list of texts the few that are most like a text, the most alike first. Those
whose likeness is below a threshold do not count. -/
def nearest (count : Nat) (threshold : Rat) (t : Text) (ts : List Text) : List Text :=
  ((ts.filter fun a => threshold ≤ likeness a t).mergeSort (precedes t)).take count

end Text

end PasswordPolicy
