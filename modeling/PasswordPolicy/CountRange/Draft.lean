import PasswordPolicy.CountRange.Reader

/-!
# Drafts of count ranges

A draft is a request for a range that has not been checked: its text, or
integers together with the way in which they bound the range.
-/

namespace PasswordPolicy

inductive CountRange.Draft
  | written (t : Text)
  | between (low : Int) (high : Option Int)
  | exactly (n : Int)
  | atLeast (n : Int)
  | atMost (n : Int)
  /-- The range between two counts, whichever is the smaller. -/
  | spanning (m n : Int)

namespace CountRange

def Draft.build : Draft → Except Error CountRange
  | .written t => read t
  | .between low high => ofInts low high
  | .exactly n => ofInts n (some n)
  | .atLeast n => ofInts n none
  | .atMost n => ofInts 0 (some n)
  | .spanning m n => ofInts (min m n) (some (max m n))

/-- The request for a range by its bounds. -/
def toDraft (r : CountRange) : Draft := .between r.least (r.most.map Int.ofNat)

theorem build_toDraft (r : CountRange) : r.toDraft.build = .ok r := by
  change ofInts r.least (r.most.map Int.ofNat) = .ok r
  rw [ofInts_ofNat, check_bounds]

end CountRange

end PasswordPolicy
