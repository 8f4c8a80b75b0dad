import PasswordPolicy.Generation.Source
import PasswordPolicy.Rule.Basic

/-!
# Quotas

A quota is what is left of a rule while characters are drawn under it: how many
characters are still due, how many may still be drawn, and from what. Drawing a
character uses up one unit of both counts. Nothing in a quota says that its
counts are in order; `rule` checks that and gives the rule that is left.

An exhausted quota draws nothing. A quota over an empty alphabet uses up its unit
and then fails, since there is nothing to draw.
-/

namespace PasswordPolicy

/-- Why a password cannot be drawn. -/
inductive Fault
  | nothingToDraw
  | exhausted
  | nothingToFill
  deriving DecidableEq

namespace Fault

def message : Fault → Text
  | nothingToDraw => "Cannot choose from an empty sequence".toList
  | exhausted => "Cannot meet a minimum above its maximum".toList
  | nothingToFill => "Cannot fill a place from an empty pool".toList

end Fault

/-- What is left of a rule while characters are drawn under it. -/
structure Quota where
  due : Nat
  left : Option Nat
  alphabet : Alphabet
  deriving DecidableEq

/-- What comes of drawing under a quota: the result, what is left of the quota,
and the source. -/
structure Drawing (α : Type) where
  result : Except Fault α
  quota : Quota
  source : Source

namespace Quota

/-- The quota of a rule under which nothing has been drawn. -/
def ofRule (r : Rule) : Quota := ⟨r.range.least, r.range.most, r.alphabet⟩

/-- The rule that is left, if its bounds are in order. -/
def rule (q : Quota) : Except Error Rule :=
  (CountRange.check q.due q.left).map fun r => ⟨r, q.alphabet⟩

def isDue (q : Quota) : Bool := 0 < q.due

def isActive (q : Quota) : Bool := q.left != some 0

/-- Whether places can be filled from the quota. -/
def canFill (q : Quota) : Bool := q.isActive && !q.alphabet.isEmpty

/-- The quota with one unit used up. -/
def spend (q : Quota) : Quota := { q with due := q.due - 1, left := q.left.map (· - 1) }

/-- One character, if any may be drawn. -/
def draw (q : Quota) (s : Source) : Drawing (Option Char) :=
  if q.isActive then
    match s.pick? q.alphabet.letters with
    | some (c, s') => ⟨.ok (some c), q.spend, s'⟩
    | none => ⟨.error .nothingToDraw, q.spend, s⟩
  else ⟨.ok none, q, s⟩

/-- A number of characters, one after the other, all of which must be had. -/
def drawMany : Nat → Quota → Source → Drawing (List Char)
  | 0, q, s => ⟨.ok [], q, s⟩
  | n + 1, q, s =>
    let d := q.draw s
    match d.result with
    | .error e => ⟨.error e, d.quota, d.source⟩
    | .ok none => ⟨.error .exhausted, d.quota, d.source⟩
    | .ok (some c) =>
      let ds := drawMany n d.quota d.source
      ⟨ds.result.map (c :: ·), ds.quota, ds.source⟩

def drawDue (q : Quota) (s : Source) : Drawing (List Char) := drawMany q.due q s

theorem rule_ofRule (r : Rule) : (ofRule r).rule = .ok r := by
  simp [rule, ofRule, CountRange.check_bounds, Except.map]

@[simp] theorem due_spend (q : Quota) : q.spend.due = q.due - 1 := rfl

@[simp] theorem left_spend (q : Quota) : q.spend.left = q.left.map (· - 1) := rfl

@[simp] theorem alphabet_spend (q : Quota) : q.spend.alphabet = q.alphabet := rfl

/-- Using up a unit leaves counts in order that were in order. -/
theorem le_of_mem_left_spend {q : Quota} (h : ∀ m ∈ q.left, q.due ≤ m) :
    ∀ m ∈ q.spend.left, q.spend.due ≤ m := by
  intro m hm
  obtain ⟨n, hn, rfl⟩ := Option.map_eq_some_iff.1 hm
  have := h n hn
  simp only [due_spend]
  omega

theorem draw_of_not_isActive {q : Quota} (h : q.isActive = false) (s : Source) :
    q.draw s = ⟨.ok none, q, s⟩ := by
  simp [draw, h]

theorem draw_of_isEmpty {q : Quota} (h : q.isActive = true)
    (he : q.alphabet.isEmpty = true) (s : Source) :
    q.draw s = ⟨.error .nothingToDraw, q.spend, s⟩ := by
  have : q.alphabet.letters = [] := by simpa [Alphabet.isEmpty] using he
  simp [draw, h, this, Source.pick?_nil]

/-- The quota after a draw depends on the quota alone. -/
theorem quota_draw (q : Quota) (s : Source) :
    (q.draw s).quota = if q.isActive then q.spend else q := by
  unfold draw
  split
  · split <;> rfl
  · rfl

@[simp] theorem alphabet_quota_draw (q : Quota) (s : Source) :
    (q.draw s).quota.alphabet = q.alphabet := by
  rw [quota_draw]
  split <;> rfl

end Quota

end PasswordPolicy
