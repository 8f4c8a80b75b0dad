import PasswordPolicy.Error

/-!
# Count ranges

A count range says how many characters of one kind a password may hold: at
least `least`, and at most `most` where that is given. Its bounds are in order.

`CountRange.check` makes a range of two bounds and refuses bounds out of order
(`check_eq_ok_iff`); `ofInts` takes integers and refuses negative ones as well.
`text` and `describe` are its two written forms.
-/

namespace PasswordPolicy

/-- How many characters of one kind a password may hold. -/
structure CountRange where
  least : Nat
  most : Option Nat
  ordered : ∀ m, most = some m → least ≤ m
  deriving DecidableEq

namespace CountRange

@[ext] theorem ext_bounds {r s : CountRange} (hl : r.least = s.least)
    (hm : r.most = s.most) : r = s := by
  cases r; cases s; simp_all

/-- A range that allows one count only. -/
def exactly (n : Nat) : CountRange :=
  ⟨n, some n, fun _ h => Nat.le_of_eq (Option.some.inj h)⟩

/-- A range without an upper bound. -/
def atLeast (n : Nat) : CountRange :=
  ⟨n, none, fun _ h => nomatch h⟩

/-- A range from zero. -/
def atMost (n : Nat) : CountRange :=
  ⟨0, some n, fun m _ => Nat.zero_le m⟩

/-- The range between two counts that are in order. -/
def between (low high : Nat) (h : low ≤ high) : CountRange :=
  ⟨low, some high, fun _ hm => Option.some.inj hm ▸ h⟩

/-- The range with the given bounds, if they are in order. -/
def check (low : Nat) : Option Nat → Except Error CountRange
  | none => .ok (atLeast low)
  | some high =>
    if h : low ≤ high then
      .ok ⟨low, some high, fun _ hm => Option.some.inj hm ▸ h⟩
    else .error (.invertedRange low high)

/-- The range with the given integers as its bounds, if neither is negative and
they are in order. -/
def ofInts (low : Int) (high : Option Int) : Except Error CountRange :=
  if low < 0 ∨ ∃ h ∈ high, h < 0 then .error (.negativeBound low high)
  else check low.toNat (high.map Int.toNat)

def allows (r : CountRange) (n : Nat) : Bool :=
  r.least ≤ n && r.most.all (n ≤ ·)

def isOpen (r : CountRange) : Bool := r.most.isNone

/-- The shortest text of a range: `N`, `N+`, `N-` or `A-B`. -/
def text (r : CountRange) : Text :=
  match r.most with
  | none => Numeral.write r.least ++ ['+']
  | some m =>
    if r.least = m then Numeral.write m
    else if r.least = 0 then Numeral.write m ++ ['-']
    else Numeral.write r.least ++ '-' :: Numeral.write m

def describe (r : CountRange) : Text :=
  match r.most with
  | none => "at least ".toList ++ Numeral.write r.least
  | some m =>
    if r.least = m then "exactly ".toList ++ Numeral.write m
    else if r.least = 0 then "at most ".toList ++ Numeral.write m
    else "between ".toList ++ Numeral.write r.least ++ " and ".toList ++ Numeral.write m

/-- A range allows the counts between its bounds. -/
theorem allows_iff {r : CountRange} {n : Nat} :
    r.allows n = true ↔ r.least ≤ n ∧ ∀ m, r.most = some m → n ≤ m := by
  cases h : r.most <;> simp [allows, h]

/-- Bounds make a range when they are in order, and it is the range with these
bounds. -/
theorem check_eq_ok_iff {low : Nat} {high : Option Nat} {r : CountRange} :
    check low high = .ok r ↔ r.least = low ∧ r.most = high := by
  cases high with
  | none =>
    simp only [check, Except.ok.injEq]
    constructor
    · rintro rfl; exact ⟨rfl, rfl⟩
    · rintro ⟨rfl, hm⟩; exact CountRange.ext_bounds rfl hm.symm
  | some high =>
    by_cases h : low ≤ high
    · simp only [check, dif_pos h, Except.ok.injEq]
      constructor
      · rintro rfl; exact ⟨rfl, rfl⟩
      · rintro ⟨rfl, hm⟩; exact CountRange.ext_bounds rfl hm.symm
    · simp only [check, dif_neg h, reduceCtorEq, false_iff]
      rintro ⟨rfl, hm⟩
      exact h (r.ordered high hm)

/-- The bounds of a range make the range. -/
theorem check_bounds (r : CountRange) : check r.least r.most = .ok r :=
  check_eq_ok_iff.2 ⟨rfl, rfl⟩

theorem check_eq_error_iff {low : Nat} {high : Option Nat} {e : Error} :
    check low high = .error e ↔
      ∃ h, high = some h ∧ h < low ∧ e = .invertedRange low h := by
  cases high with
  | none => simp [check]
  | some high =>
    by_cases h : low ≤ high
    · simp only [check, dif_pos h, reduceCtorEq, false_iff]
      rintro ⟨m, hm, hlt, -⟩
      cases hm
      omega
    · simp only [check, dif_neg h, Except.error.injEq]
      constructor
      · rintro rfl; exact ⟨high, rfl, by omega, rfl⟩
      · rintro ⟨m, hm, -, rfl⟩; cases hm; rfl

theorem ofInts_ofNat (low : Nat) (high : Option Nat) :
    ofInts low (high.map Int.ofNat) = check low high := by
  have h : ¬((low : Int) < 0 ∨ ∃ h ∈ high.map Int.ofNat, h < 0) := by
    rintro (h | ⟨h, hm, hlt⟩)
    · omega
    · obtain ⟨n, -, rfl⟩ := Option.map_eq_some_iff.1 hm
      exact absurd hlt (by simp)
  rw [ofInts, if_neg h, Option.map_map]
  simp [Function.comp_def]

end CountRange

end PasswordPolicy
