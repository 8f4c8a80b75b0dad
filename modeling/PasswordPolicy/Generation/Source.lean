import PasswordPolicy.Text.Basic

/-!
# Random sources

A source is a sequence of numbers together with how many of them have been used.
A call of `below` uses the next number and reduces it to a place below a positive
bound. Every use of chance goes through `below`, so `calls` counts them all.

`pick?` chooses an entry of a list, and `shuffle` permutes a list by a pass of
swaps from the last position down.
-/

namespace PasswordPolicy

/-- A sequence of numbers, and how many of them have been used. -/
structure Source where
  value : Nat → Nat
  calls : Nat

namespace Source

/-- The source of a sequence that has not been used. -/
def ofSequence (value : Nat → Nat) : Source := ⟨value, 0⟩

/-- The source that goes through an array again and again. -/
def cycle (values : Array Nat) : Source :=
  ofSequence fun k => values.getD (k % values.size) 0

/-- The state of the linear congruential generator some steps after a given
state. -/
def congruentialState : Nat → UInt64 → UInt64
  | 0, state => state
  | k + 1, state => congruentialState k (state * 6364136223846793005 + 1442695040888963407)

/-- The source of a linear congruential generator of 64 bits, of which each state
gives its upper 31 bits. -/
def congruential (seed : UInt64) : Source :=
  ofSequence fun k => (congruentialState (k + 1) seed >>> 33).toNat

def advance (s : Source) : Source := ⟨s.value, s.calls + 1⟩

/-- A place below a positive bound. -/
def below (s : Source) {n : Nat} (h : 0 < n) : Fin n × Source :=
  (⟨s.value s.calls % n, Nat.mod_lt _ h⟩, s.advance)

/-- An entry of a list. The empty list has none, and then no call is made. -/
def pick? {α : Type} (s : Source) (xs : List α) : Option (α × Source) :=
  if h : 0 < xs.length then
    let (i, s') := s.below h
    some (xs[i], s')
  else none

/-- The swaps of a shuffle from a position down. Each position is swapped with a
place at or below it. -/
def shuffleFrom {α : Type} : Nat → Array α → Source → Array α × Source
  | 0, xs, s => (xs, s)
  | i + 1, xs, s =>
    let (j, s') := s.below (Nat.succ_pos (i + 1))
    shuffleFrom i (xs.swapIfInBounds (i + 1) j) s'

/-- A permutation of a list. -/
def shuffle {α : Type} (s : Source) (xs : List α) : List α × Source :=
  let (ys, s') := shuffleFrom (xs.length - 1) xs.toArray s
  (ys.toList, s')

@[simp] theorem value_advance (s : Source) : s.advance.value = s.value := rfl

@[simp] theorem calls_advance (s : Source) : s.advance.calls = s.calls + 1 := rfl

theorem below_fst_val (s : Source) {n : Nat} (h : 0 < n) :
    ((s.below h).1 : Nat) = s.value s.calls % n := rfl

theorem pick?_nil {α : Type} (s : Source) : s.pick? ([] : List α) = none := rfl

end Source

end PasswordPolicy
