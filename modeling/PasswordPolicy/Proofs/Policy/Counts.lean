import PasswordPolicy.Proofs.Generation.Password

/-!
# Feasibility by counts

A policy can be met when its length can be divided among its rules: there is a count for each
rule, within the bounds of the rule and zero where the alphabet is empty, and the counts add up
to the length (`isFeasible_iff_exists_counts`). The two totals of a policy decide this, since
a rule that can be met at all can have any count from its least one up to its capacity
(`Rule.canHave_iff`).

The counts are found rule by rule (`exists_counts_iff`). A rule takes as many characters as it
can have, but leaves what the rules after it ask for (`share`).
-/

namespace PasswordPolicy

/-- A password can have that many characters under a rule. -/
structure Rule.CanHave (r : Rule) (n : Nat) : Prop where
  least_le : r.range.least ≤ n
  le_most : ∀ m, r.range.most = some m → n ≤ m
  eq_zero : r.alphabet.letters = [] → n = 0

namespace Rule

variable {r : Rule} {n : Nat}

/-- The counts that a rule can have lie between its least count and its capacity. -/
theorem canHave_iff :
    r.CanHave n ↔ r.isUnfillable = false ∧ r.range.least ≤ n ∧
      ∀ m, r.capacity = some m → n ≤ m := by
  by_cases he : r.alphabet.isEmpty = true
  · rw [isUnfillable_of_isEmpty he, capacity, if_pos he]
    constructor
    · rintro ⟨hleast, -, hzero⟩
      obtain rfl := hzero (List.isEmpty_iff.1 he)
      exact ⟨Nat.le_zero.1 hleast, hleast, fun _ _ => Nat.zero_le _⟩
    · rintro ⟨-, hleast, hmost⟩
      obtain rfl := Nat.le_zero.1 (hmost 0 rfl)
      exact ⟨hleast, fun _ _ => Nat.zero_le _, fun _ => rfl⟩
  · have hfillable : r.isUnfillable = false := by simp [isUnfillable, he]
    rw [capacity, if_neg he]
    constructor
    · rintro ⟨hleast, hmost, -⟩
      exact ⟨hfillable, hleast, hmost⟩
    · rintro ⟨-, hleast, hmost⟩
      exact ⟨hleast, hmost, fun hnone => absurd (List.isEmpty_iff.2 hnone) he⟩

/-- A rule asks for no more than its capacity, unless it asks for characters where there are
none. -/
theorem least_le_capacity (hr : r.isUnfillable = false) {m : Nat} (hm : r.capacity = some m) :
    r.range.least ≤ m := by
  rw [capacity] at hm
  split at hm
  next he =>
    rw [(isUnfillable_of_isEmpty he).1 hr]
    exact Nat.zero_le m
  next => exact r.range.ordered m hm

end Rule

theorem Covers.mono {ms : List (Option Nat)} {k n : Nat} (h : Covers ms n) (hk : k ≤ n) :
    Covers ms k := fun m hm => Nat.le_trans hk (h m hm)

/-- As much of what is free as a bound allows. -/
def share (bound : Option Nat) (free : Nat) : Nat :=
  match bound with
  | none => free
  | some m => min m free

theorem share_le_free (bound : Option Nat) (free : Nat) : share bound free ≤ free := by
  cases bound with
  | none => exact Nat.le_refl free
  | some m => exact Nat.min_le_right m free

theorem share_le_bound {bound : Option Nat} {m : Nat} (hm : bound = some m) (free : Nat) :
    share bound free ≤ m := by
  rw [hm]
  exact Nat.min_le_left m free

theorem le_share {bound : Option Nat} {a free : Nat} (ha : ∀ m, bound = some m → a ≤ m)
    (hfree : a ≤ free) : a ≤ share bound free := by
  cases bound with
  | none => exact hfree
  | some m => exact Nat.le_min.2 ⟨ha m rfl, hfree⟩

/-- When a bound has its share of what is not kept for the other bounds, these cover the
rest. -/
theorem covers_sub_share {bound : Option Nat} {ms : List (Option Nat)} {kept n : Nat}
    (h : Covers (bound :: ms) n) (hkept : Covers ms kept) (hle : kept ≤ n) :
    Covers ms (n - share bound (n - kept)) := by
  cases bound with
  | none =>
      rw [share, Nat.sub_sub_self hle]
      exact hkept
  | some m =>
      rw [share]
      rcases Nat.le_total m (n - kept) with hm | hm
      · rw [Nat.min_eq_left hm]
        exact covers_cons_some_iff.1 h
      · rw [Nat.min_eq_right hm, Nat.sub_sub_self hle]
        exact hkept

theorem covers_least {rs : List Rule} (h : ∀ r ∈ rs, r.isUnfillable = false) :
    Covers (rs.map Rule.capacity) (rs.map fun r => r.range.least).sum :=
  covers_sum fun r hr _ hm => Rule.least_le_capacity (h r hr) hm

theorem covers_capacity_cons {r : Rule} {ms : List (Option Nat)} {n l : Nat}
    (hn : r.CanHave n) (h : Covers ms (l - n)) : Covers (r.capacity :: ms) l := by
  cases hm : r.capacity with
  | none => exact covers_cons_none ms l
  | some m =>
      have hle : n ≤ m := (Rule.canHave_iff.1 hn).2.2 m hm
      exact covers_cons_some_iff.2 (h.mono (Nat.sub_le_sub_left hle l))

theorem canHave_share {r : Rule} {free : Nat} (hr : r.isUnfillable = false)
    (hfree : r.range.least ≤ free) : r.CanHave (share r.capacity free) := by
  refine Rule.canHave_iff.2 ⟨hr, le_share ?_ hfree, ?_⟩
  · exact fun m hm => Rule.least_le_capacity hr hm
  · exact fun m hm => share_le_bound hm free

/-- A number can be divided among rules if none of them asks for characters where there are
none, and the number lies between the totals of their least counts and of their capacities. -/
theorem exists_counts_iff {rs : List Rule} {l : Nat} :
    (∃ ns, List.Forall₂ Rule.CanHave rs ns ∧ ns.sum = l) ↔
      (∀ r ∈ rs, r.isUnfillable = false) ∧ (rs.map fun r => r.range.least).sum ≤ l ∧
        Covers (rs.map Rule.capacity) l := by
  induction rs generalizing l with
  | nil =>
      rw [List.map_nil, List.map_nil, List.sum_nil, covers_nil_iff]
      constructor
      · rintro ⟨_, ⟨⟩, rfl⟩
        exact ⟨List.forall_mem_nil _, Nat.le_refl 0, rfl⟩
      · rintro ⟨-, -, rfl⟩
        exact ⟨[], .nil, rfl⟩
  | cons r rs ih =>
      rw [List.forall_mem_cons, List.map_cons, List.map_cons, List.sum_cons]
      constructor
      · rintro ⟨_, ⟨⟩ | @⟨_, n, _, ns, hn, hns⟩, rfl⟩
        obtain ⟨hfillable, hleast, hcovers⟩ := ih.1 ⟨ns, hns, rfl⟩
        obtain ⟨hr, hle, -⟩ := Rule.canHave_iff.1 hn
        rw [List.sum_cons]
        refine ⟨⟨hr, hfillable⟩, Nat.add_le_add hle hleast, covers_capacity_cons hn ?_⟩
        rwa [Nat.add_sub_cancel_left]
      · rintro ⟨⟨hr, hfillable⟩, hleast, hcovers⟩
        -- The rule takes its share of what the rules after it do not ask for.
        have hkept : (rs.map fun r => r.range.least).sum ≤ l := by omega
        have hrest := covers_sub_share hcovers (covers_least hfillable) hkept
        have hle := share_le_free r.capacity (l - (rs.map fun r => r.range.least).sum)
        have hn := canHave_share hr (Nat.le_sub_of_add_le hleast)
        obtain ⟨ns, hns, hsum⟩ := ih.2 ⟨hfillable, by omega, hrest⟩
        refine ⟨_, .cons hn hns, ?_⟩
        rw [List.sum_cons, hsum]
        omega

namespace Policy

variable {p : Policy}

/-- A policy with a text that meets it can be met. -/
theorem isFeasible_of_isMetBy {w : Text} (h : p.IsMetBy w) : p.isFeasible = true := by
  obtain ⟨hl, howners⟩ := h
  obtain ⟨as, hw, has⟩ := exists_isAttribution_iff.1 howners
  exact has.isFeasible (hw.length_eq.symm.trans hl) (isEmpty_of_mem_of_belong hw)

/-- A policy that can be met comes to a text that meets it. -/
theorem exists_isMetBy_iff : (∃ w, p.IsMetBy w) ↔ p.isFeasible = true := by
  constructor
  · rintro ⟨w, hw⟩
    exact isFeasible_of_isMetBy hw
  · intro h
    obtain ⟨w, hw, -⟩ := (spans_generate h).sound (.ofSequence id)
    exact ⟨w, hw⟩

/-- A policy is feasible exactly when there are counts, one for each rule, that the rules can
have and that add up to the length. It is the same to say that there is a text of that length
whose characters can be attributed to the rules. -/
theorem isFeasible_iff_exists_counts (p : Policy) :
    (p.isFeasible = true ↔
      ∃ ns : List Nat, List.Forall₂ Rule.CanHave p.rules ns ∧ ns.sum = p.length) ∧
      (p.isFeasible = true ↔
        ∃ w : Text, w.length = p.length ∧ ∃ owners, p.IsAttribution w owners) :=
  ⟨isFeasible_iff.trans exists_counts_iff.symm, exists_isMetBy_iff.symm⟩

-- Nothing can be had under the first rule, although it has no upper bound.
example : (Policy.mk 3 (.ofList [⟨.atLeast 0, .literal []⟩,
    ⟨.atMost 2, .literal ['a']⟩])).isFeasible = false := by
  decide

end Policy

end PasswordPolicy
