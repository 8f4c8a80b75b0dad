import PasswordPolicy.Proofs.Generation.Pool

/-!
# What is left of the rules when all that is due has been drawn

For a policy that can be met, every quota is sound (`isSound_of_mem_quotas`), and the pool
that is left suffices for the places that are left (`suffices_settledPool`): a rule can
supply what was due under it and what its quota in the pool has left, and a rule whose
quota is not in the pool has nothing left to supply.

The same balance, read for one alphabet at a time, says which alphabets a password can be
filled from: those due together with any that the pool admits make an allotment
(`isAllotment_append`), and every allotment is made in this way
(`exists_admits_of_isAllotment`).
-/

namespace PasswordPolicy

theorem mem_settledPool_iff {qs : List Quota} {q' : Quota} :
    q' ∈ settledPool qs ↔ ∃ q ∈ qs, q.settled = q' ∧ q'.canFill = true := by
  rw [settledPool, List.mem_filter, List.mem_map]
  constructor
  · rintro ⟨⟨q, hq, rfl⟩, hfill⟩
    exact ⟨q, hq, rfl, hfill⟩
  · rintro ⟨q, hq, rfl, hfill⟩
    exact ⟨⟨q, hq, rfl⟩, hfill⟩

theorem nodup_alphabet_settledPool {qs : List Quota} (hd : (qs.map Quota.alphabet).Nodup) :
    ((settledPool qs).map Quota.alphabet).Nodup := by
  have hsub : ((settledPool qs).map Quota.alphabet).Sublist
      ((qs.map Quota.settled).map Quota.alphabet) := List.filter_sublist.map _
  rw [List.map_map] at hsub
  exact hd.sublist hsub

theorem mem_of_mem_dueAlphabets {qs : List Quota} {a : Alphabet} (h : a ∈ dueAlphabets qs) :
    a ∈ qs.map Quota.alphabet := by
  obtain ⟨q, hq, ha⟩ := List.mem_flatMap.1 h
  exact List.mem_map.2 ⟨q, hq, (List.eq_of_mem_replicate ha).symm⟩

/-- With distinct alphabets, as many characters are due from an alphabet as under its
quota. -/
theorem count_dueAlphabets {qs : List Quota} (hd : (qs.map Quota.alphabet).Nodup) {q : Quota}
    (hq : q ∈ qs) : (dueAlphabets qs).count q.alphabet = q.due := by
  induction qs with
  | nil => exact absurd hq List.not_mem_nil
  | cons r qs ih =>
      obtain ⟨hr, hqs⟩ := List.nodup_cons.1 hd
      rw [dueAlphabets_cons, List.count_append]
      rcases List.mem_cons.1 hq with rfl | hmem
      · have hzero : (dueAlphabets qs).count q.alphabet = 0 :=
          List.count_eq_zero.2 fun hm => hr (mem_of_mem_dueAlphabets hm)
        rw [List.count_replicate_self, hzero, Nat.add_zero]
      · have hne : q.alphabet ≠ r.alphabet := fun he => hr (he ▸ List.mem_map_of_mem hmem)
        rw [List.count_replicate, if_neg (by simpa using Ne.symm hne), ih hqs hmem, Nat.zero_add]

/-- Places can be filled under a rule, when all that was due has been drawn, if its
alphabet has a letter and its greatest count is above its least one. -/
theorem canFill_settled_ofRule_iff {r : Rule} :
    (Quota.ofRule r).settled.canFill = true ↔
      r.alphabet.isEmpty = false ∧ ∀ m, r.range.most = some m → r.range.least < m := by
  have hactive : (Quota.ofRule r).settled.isActive = true ↔
      ∀ m, r.range.most = some m → r.range.least < m := by
    rw [Quota.isActive_iff]
    constructor
    · intro h m hm
      exact Nat.lt_of_sub_pos (h _ (Option.mem_map_of_mem _ hm))
    · intro h l hl
      obtain ⟨m, hm, rfl⟩ := Option.map_eq_some_iff.1 hl
      exact Nat.sub_pos_of_lt (h m hm)
  rw [Quota.canFill, Bool.and_eq_true, hactive, Bool.not_eq_true', and_comm]
  rfl

theorem left_settled_ofRule (r : Rule) :
    (Quota.ofRule r).settled.left = r.range.most.map (· - r.range.least) := rfl

/-- A quota that is not in the pool had no more to supply than was due. -/
theorem capacity_of_not_canFill {r : Rule} (hr : r.isUnfillable = false)
    (hfill : ¬(Quota.ofRule r).settled.canFill = true) : r.capacity = some r.range.least := by
  unfold Rule.capacity
  split
  next he =>
    rw [(Rule.isUnfillable_of_isEmpty he).1 hr]
  next he =>
    rw [canFill_settled_ofRule_iff] at hfill
    by_contra hne
    refine hfill ⟨by simpa using he, ?_⟩
    intro m hm
    have hle := r.range.ordered m hm
    have hneq : m ≠ r.range.least := fun heq => hne (heq ▸ hm)
    omega

/-- What the rules can supply beyond what is due is in the pool. -/
theorem covers_settledPool {rs : List Rule} (hr : ∀ r ∈ rs, r.isUnfillable = false) {n : Nat}
    (h : Covers (rs.map Rule.capacity) n) :
    Covers ((settledPool (rs.map Quota.ofRule)).map Quota.left)
      (n - (rs.map fun r => r.range.least).sum) := by
  induction rs generalizing n with
  | nil => simpa [settledPool] using h
  | cons r rs ih =>
      have hrs : ∀ s ∈ rs, s.isUnfillable = false := fun s hs => hr s (List.mem_cons_of_mem r hs)
      have hfillable := hr r (List.mem_cons_self ..)
      rw [List.map_cons, settledPool_cons, List.map_cons, List.sum_cons]
      rw [List.map_cons] at h
      by_cases hfill : (Quota.ofRule r).settled.canFill = true
      · obtain ⟨hletters, hmost⟩ := canFill_settled_ofRule_iff.1 hfill
        rw [if_pos hfill, List.map_cons, left_settled_ofRule]
        cases hm : r.range.most with
        | none => exact covers_cons_none _ _
        | some m =>
            have hlt := hmost m hm
            rw [Rule.capacity, hletters, hm] at h
            have hrest := ih hrs (covers_cons_some_iff.1 h)
            rw [Option.map_some, covers_cons_some_iff]
            intro k hk
            have := hrest k hk
            omega
      · rw [if_neg hfill]
        rw [capacity_of_not_canFill hfillable hfill, covers_cons_some_iff] at h
        have hrest := ih hrs h
        rwa [Nat.sub_sub] at hrest

namespace Policy

theorem map_alphabet_quotas (p : Policy) :
    p.quotas.map Quota.alphabet = p.rules.map Rule.alphabet := by
  rw [quotas, List.map_map]
  rfl

theorem sum_due_quotas (p : Policy) : (p.quotas.map Quota.due).sum = p.least := by
  rw [quotas, List.map_map]
  rfl

theorem nodup_alphabet_quotas (p : Policy) : (p.quotas.map Quota.alphabet).Nodup := by
  rw [map_alphabet_quotas]
  exact p.table.distinct

theorem isSound_of_mem_quotas {p : Policy} (h : p.isFeasible = true) :
    ∀ q ∈ p.quotas, q.IsSound := by
  intro q hq
  obtain ⟨r, hr, rfl⟩ := List.mem_map.1 hq
  refine ⟨r.range.ordered, ?_⟩
  intro hdue
  have hfillable := (isFeasible_iff.1 h).1 r hr
  have hrequired : r.isRequired = true := decide_eq_true hdue
  rw [Rule.isUnfillable, hrequired, Bool.true_and] at hfillable
  exact hfillable

theorem suffices_settledPool {p : Policy} (h : p.isFeasible = true) :
    Suffices (settledPool p.quotas) (p.length - p.least) := by
  obtain ⟨hfillable, -, hcovers⟩ := isFeasible_iff.1 h
  refine ⟨?_, nodup_alphabet_settledPool p.nodup_alphabet_quotas, ?_⟩
  · intro q hq
    obtain ⟨-, -, -, hfill⟩ := mem_settledPool_iff.1 hq
    exact hfill
  · exact covers_settledPool hfillable hcovers

/-- An alphabet of the policy is in the pool if places can be filled under its rule. -/
theorem alphabet_mem_settledPool_iff {p : Policy} {r : Rule} (hr : r ∈ p.rules) :
    r.alphabet ∈ (settledPool p.quotas).map Quota.alphabet ↔
      (Quota.ofRule r).settled.canFill = true := by
  constructor
  · intro h
    obtain ⟨q', hq', ha⟩ := List.mem_map.1 h
    obtain ⟨q, hq, rfl, hfill⟩ := mem_settledPool_iff.1 hq'
    obtain ⟨r', hr', rfl⟩ := List.mem_map.1 hq
    rw [eq_of_alphabet_eq hr' hr ha] at hfill
    exact hfill
  · intro hfill
    have hmem : (Quota.ofRule r).settled ∈ settledPool p.quotas :=
      mem_settledPool_iff.2 ⟨_, List.mem_map_of_mem hr, rfl, hfill⟩
    exact List.mem_map_of_mem hmem

theorem count_dueAlphabets_quotas {p : Policy} {r : Rule} (hr : r ∈ p.rules) :
    (dueAlphabets p.quotas).count r.alphabet = r.range.least :=
  count_dueAlphabets p.nodup_alphabet_quotas (List.mem_map_of_mem hr)

/-- The alphabets that are due, with any that the pool admits, make an allotment. -/
theorem isAllotment_append {p : Policy} {bs : List Alphabet}
    (h : Admits (settledPool p.quotas) bs) : p.IsAllotment (dueAlphabets p.quotas ++ bs) := by
  constructor
  · intro a ha
    rw [← map_alphabet_quotas]
    rcases List.mem_append.1 ha with ha | ha
    · exact mem_of_mem_dueAlphabets ha
    · obtain ⟨q', hq', rfl⟩ := List.mem_map.1 (h.known a ha)
      obtain ⟨q, hq, rfl, -⟩ := mem_settledPool_iff.1 hq'
      rw [Quota.alphabet_settled]
      exact List.mem_map_of_mem hq
  · intro r hr
    rw [CountRange.allows_iff, List.count_append, count_dueAlphabets_quotas hr]
    refine ⟨Nat.le_add_right _ _, ?_⟩
    intro m hm
    have hle : r.range.least ≤ m := r.range.ordered m hm
    have hmore : bs.count r.alphabet ≤ m - r.range.least := by
      by_cases hfill : (Quota.ofRule r).settled.canFill = true
      · exact h.within _ (mem_settledPool_iff.2 ⟨_, List.mem_map_of_mem hr, rfl, hfill⟩) _
          (Option.mem_map_of_mem _ hm)
      · have hnone : r.alphabet ∉ bs :=
          fun hb => hfill ((alphabet_mem_settledPool_iff hr).1 (h.known _ hb))
        rw [List.count_eq_zero.2 hnone]
        exact Nat.zero_le _
    omega

/-- Every allotment of letters is made of the alphabets that are due and some that the
pool admits. -/
theorem exists_admits_of_isAllotment {p : Policy} {as : List Alphabet} (h : p.IsAllotment as)
    (hletters : ∀ a ∈ as, a.isEmpty = false) :
    ∃ bs, (dueAlphabets p.quotas ++ bs).Perm as ∧ Admits (settledPool p.quotas) bs := by
  have hcount : ∀ r ∈ p.rules, (as.diff (dueAlphabets p.quotas)).count r.alphabet =
      as.count r.alphabet - r.range.least := by
    intro r hr
    rw [List.count_diff, count_dueAlphabets_quotas hr]
  refine ⟨as.diff (dueAlphabets p.quotas), ?_, ?_, ?_⟩
  · apply List.subperm_append_diff_self_of_count_le
    intro a ha
    obtain ⟨q, hq, rfl⟩ := List.mem_map.1 (mem_of_mem_dueAlphabets ha)
    obtain ⟨r, hr, rfl⟩ := List.mem_map.1 hq
    exact Nat.le_trans (Nat.le_of_eq (count_dueAlphabets_quotas hr)) (h.bounds hr).1
  · intro a ha
    have hmem : a ∈ as := List.diff_subset _ _ ha
    obtain ⟨r, hr, rfl⟩ := List.mem_map.1 (h.known a hmem)
    have hpos : 0 < as.count r.alphabet - r.range.least := by
      rw [← hcount r hr]
      exact List.count_pos_iff.2 ha
    rw [alphabet_mem_settledPool_iff hr, canFill_settled_ofRule_iff]
    refine ⟨hletters _ hmem, ?_⟩
    intro m hm
    exact Nat.lt_of_lt_of_le (Nat.lt_of_sub_pos hpos) ((h.bounds hr).2 m hm)
  · intro q' hq' l hl
    obtain ⟨q, hq, rfl, -⟩ := mem_settledPool_iff.1 hq'
    obtain ⟨r, hr, rfl⟩ := List.mem_map.1 hq
    obtain ⟨m, hm, rfl⟩ := Option.map_eq_some_iff.1 hl
    have hmost := (h.bounds hr).2 m hm
    exact Nat.le_trans (Nat.le_of_eq (hcount r hr)) (Nat.sub_le_sub_right hmost _)

end Policy

end PasswordPolicy
