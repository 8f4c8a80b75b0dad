import PasswordPolicy.Policy.Basic

/-!
# Feasibility of a policy

A policy can be met when no rule asks for characters where there are none, and
the length lies between the total of the least counts and the total of the
greatest counts. A rule over an empty alphabet adds nothing to the second
total, and a rule without an upper bound makes it unbounded.
-/

namespace PasswordPolicy

/-- How many characters a rule can supply, if that is bounded. -/
def Rule.capacity (r : Rule) : Option Nat :=
  if r.alphabet.isEmpty then some 0 else r.range.most

namespace Policy

/-- The total of a list of bounds, of which none may be missing. -/
def totalCapacity : List (Option Nat) → Option Nat
  | [] => some 0
  | none :: _ => none
  | some m :: ms => (totalCapacity ms).map (m + ·)

/-- How many characters the rules ask for. -/
def least (p : Policy) : Nat := (p.rules.map fun r => r.range.least).foldr (· + ·) 0

/-- How many characters the rules can supply, if that is bounded. -/
def most (p : Policy) : Option Nat := totalCapacity (p.rules.map Rule.capacity)

/-- Why no password meets a policy. -/
inductive Obstacle
  /-- A rule asks for characters where there are none. -/
  | unfillable (r : Rule)
  /-- The rules ask for more characters than the length. -/
  | excess (least length : Nat)
  /-- The rules cannot supply as many characters as the length. -/
  | shortage (length most : Nat)
  deriving DecidableEq

/-- The first obstacle to meeting a policy, if there is one. -/
def obstacle? (p : Policy) : Option Obstacle :=
  match p.rules.find? Rule.isUnfillable with
  | some r => some (.unfillable r)
  | none =>
    if p.length < p.least then some (.excess p.least p.length)
    else
      match p.most with
      | none => none
      | some m => if m < p.length then some (.shortage p.length m) else none

def isFeasible (p : Policy) : Bool := p.obstacle?.isNone

/-- The three conditions under which a policy can be met. -/
theorem isFeasible_iff {p : Policy} :
    p.isFeasible = true ↔
      (∀ r ∈ p.rules, r.isUnfillable = false) ∧ p.least ≤ p.length ∧
        ∀ m, p.most = some m → p.length ≤ m := by
  unfold isFeasible obstacle?
  cases hf : p.rules.find? Rule.isUnfillable with
  | some r =>
    simp only [Option.isNone_some, Bool.false_eq_true, false_iff, not_and]
    intro h
    have := h r (List.mem_of_find?_eq_some hf)
    simp [List.find?_some hf] at this
  | none =>
    have hu : ∀ r ∈ p.rules, r.isUnfillable = false := by simpa using hf
    rw [and_iff_right hu]
    by_cases hl : p.length < p.least
    · simp [hl, Nat.not_le.2 hl]
    · have hle : p.least ≤ p.length := Nat.not_lt.1 hl
      cases hm : p.most with
      | none => simp [hl, hle]
      | some m => by_cases hlt : m < p.length <;> simp [hl, hle, hlt, Nat.not_lt.1]

end Policy

end PasswordPolicy
