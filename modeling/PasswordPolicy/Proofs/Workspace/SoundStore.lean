import PasswordPolicy.Proofs.Fallible
import PasswordPolicy.Proofs.Workspace.Cells

/-!
# Sound stores

A store is sound when the counts of each of its quotas are in order, its tables map distinct
alphabets to quotas over these alphabets, and its policies use tables that it has. Adding
to a sound store and setting its cells keep it sound, as long as what is put in is in order
itself. A sound store can be read at every handle that it has, and it is read as what is in
its cells: a quota as the rule with its counts, a table as the rules of its quotas in the
order of its entries (`IsSound.exists_partAt`).
-/

namespace PasswordPolicy

namespace Quota

/-- The counts of the quota are in order. -/
def IsOrdered (q : Quota) : Prop := ∀ m ∈ q.left, q.due ≤ m

theorem isOrdered_ofRule (r : Rule) : (ofRule r).IsOrdered := r.range.ordered

theorem rule_eq_ok_of_isOrdered {q : Quota} (h : q.IsOrdered) :
    ∃ r, q = ofRule r ∧ q.rule = .ok r :=
  ⟨⟨⟨q.due, q.left, h⟩, q.alphabet⟩, rfl, rule_ofRule ⟨⟨q.due, q.left, h⟩, q.alphabet⟩⟩

end Quota

namespace Store

variable {s s' : Store} {e : Entry} {es : List Entry}

/-- The entry refers to a quota over its own alphabet. -/
def Backs (s : Store) (e : Entry) : Prop :=
  ∃ q, s.quotas[e.quota]? = some q ∧ q.alphabet = e.alphabet

structure IsSound (s : Store) : Prop where
  ordered : ∀ q ∈ s.quotas, q.IsOrdered
  distinct : ∀ es ∈ s.tables, (es.map Entry.alphabet).Nodup
  backed : ∀ es ∈ s.tables, ∀ e ∈ es, s.Backs e
  seated : ∀ c ∈ s.policies, c.table < s.tables.length

/-- Entries stand for rules when they refer to the quotas of the rules, one after the
other. -/
abbrev Lists (s : Store) : List Entry → List Rule → Prop :=
  List.Forall₂ fun e r => s.quotas[e.quota]? = some (.ofRule r)

/-- What is in the cells that a handle leads to, as a part of a policy. -/
def Shows (s : Store) : Handle → Part → Prop
  | .quota i, .rule r => s.quotas[i]? = some (.ofRule r)
  | .table i, .table t => ∃ es, s.tables[i]? = some es ∧ s.Lists es t.rules
  | .policy i, .policy p => ∃ c es, s.policies[i]? = some c ∧ c.length = p.length ∧
      s.tables[c.table]? = some es ∧ s.Lists es p.rules
  | _, _ => False

theorem isSound_empty : empty.IsSound := by
  constructor <;> simp [empty]

theorem Backs.has (h : s.Backs e) : s.Has (.quota e.quota) := by
  obtain ⟨q, hq, -⟩ := h
  exact (List.getElem?_eq_some_iff.1 hq).1

theorem Backs.of_grows (hg : s.Grows s') (h : s.Backs e) : s'.Backs e := by
  obtain ⟨q, hq, ha⟩ := h
  have hsame : s'.quotas[e.quota]? = s.quotas[e.quota]? :=
    hg (.quota e.quota) (List.getElem?_eq_some_iff.1 hq).1
  exact ⟨q, hsame.trans hq, ha⟩

theorem backs_setQuota {i : Nat} {q q' : Quota} (hq : s.quotas[i]? = some q)
    (ha : q'.alphabet = q.alphabet) (h : s.Backs e) : (s.setQuota i q').Backs e := by
  obtain ⟨r, hr, hre⟩ := h
  by_cases hi : i = e.quota
  · subst hi
    obtain rfl : q = r := Option.some.inj (hq.symm.trans hr)
    exact ⟨q', List.getElem?_set_self (List.getElem?_eq_some_iff.1 hr).1, ha.trans hre⟩
  · exact ⟨r, (List.getElem?_set_ne hi).trans hr, hre⟩

namespace IsSound

theorem addQuotas (h : s.IsSound) (qs : List Quota) (hqs : ∀ q ∈ qs, q.IsOrdered) :
    IsSound { s with quotas := s.quotas ++ qs } where
  ordered q hq := (List.mem_append.1 hq).elim (h.ordered q) (hqs q)
  distinct := h.distinct
  backed es hes e he := (h.backed es hes e he).of_grows (grows_addQuotas s qs)
  seated := h.seated

theorem addEntries (h : s.IsSound) (hd : (es.map Entry.alphabet).Nodup)
    (hb : ∀ e ∈ es, s.Backs e) : (s.addEntries es).1.IsSound where
  ordered := h.ordered
  distinct fs hfs := by
    rcases List.mem_append.1 hfs with hfs | hfs
    · exact h.distinct fs hfs
    · rwa [List.mem_singleton.1 hfs]
  backed fs hfs e he := by
    have hback : s.Backs e := by
      rcases List.mem_append.1 hfs with hfs | hfs
      · exact h.backed fs hfs e he
      · exact hb e (List.mem_singleton.1 hfs ▸ he)
    exact hback.of_grows (grows_addEntries s es)
  seated c hc := by
    have hlt := h.seated c hc
    simp only [Store.addEntries, List.length_append]
    exact Nat.lt_add_right _ hlt

theorem addPolicyCell (h : s.IsSound) (length : Nat) {table : Nat}
    (ht : table < s.tables.length) : (s.addPolicyCell length table).1.IsSound where
  ordered := h.ordered
  distinct := h.distinct
  backed := h.backed
  seated c hc := by
    rcases List.mem_append.1 hc with hc | hc
    · exact h.seated c hc
    · rwa [List.mem_singleton.1 hc]

theorem addRule (h : s.IsSound) (r : Rule) : (s.addRule r).1.IsSound := by
  refine h.addQuotas [.ofRule r] ?_
  intro q hq
  rw [List.mem_singleton.1 hq]
  exact Quota.isOrdered_ofRule r

end IsSound

theorem map_alphabet_entriesFrom (i : Nat) (rs : List Rule) :
    (entriesFrom i rs).map Entry.alphabet = rs.map Rule.alphabet := by
  induction rs generalizing i with
  | nil => rfl
  | cons r rs ih => rw [entriesFrom, List.map_cons, List.map_cons, ih]

/-- Each entry for rules refers to the quota of its rule. -/
theorem exists_of_mem_entriesFrom {i : Nat} {rs : List Rule} (he : e ∈ entriesFrom i rs) :
    ∃ k r, rs[k]? = some r ∧ e = ⟨r.alphabet, i + k⟩ := by
  induction rs generalizing i with
  | nil => cases he
  | cons r rs ih =>
      rcases List.mem_cons.1 he with rfl | he
      · exact ⟨0, r, rfl, rfl⟩
      · obtain ⟨k, q, hq, rfl⟩ := ih he
        exact ⟨k + 1, q, hq, by rw [Nat.add_assoc, Nat.add_comm 1]⟩

namespace IsSound

theorem addTable (h : s.IsSound) (t : RuleTable) : (s.addTable t).1.IsSound := by
  have hqs : ∀ q ∈ t.rules.map Quota.ofRule, q.IsOrdered := by
    intro q hq
    obtain ⟨r, -, rfl⟩ := List.mem_map.1 hq
    exact Quota.isOrdered_ofRule r
  refine (h.addQuotas _ hqs).addEntries ?_ ?_
  · rw [map_alphabet_entriesFrom]
    exact t.distinct
  · intro e he
    obtain ⟨k, r, hr, rfl⟩ := exists_of_mem_entriesFrom he
    refine ⟨.ofRule r, ?_, rfl⟩
    rw [List.getElem?_append_right (Nat.le_add_right _ k), Nat.add_sub_cancel_left,
      List.getElem?_map, hr]
    rfl

theorem addPolicy (h : s.IsSound) (p : Policy) : (s.addPolicy p).1.IsSound := by
  refine (h.addTable p.table).addPolicyCell p.length ?_
  simp [Store.addTable, Store.addEntries]

theorem setQuota (h : s.IsSound) {i : Nat} {q q' : Quota} (hq : s.quotas[i]? = some q)
    (ha : q'.alphabet = q.alphabet) (ho : q'.IsOrdered) : (s.setQuota i q').IsSound where
  ordered r hr := (List.mem_or_eq_of_mem_set hr).elim (h.ordered r) fun hr => hr ▸ ho
  distinct := h.distinct
  backed es hes e he := backs_setQuota hq ha (h.backed es hes e he)
  seated := h.seated

theorem setEntries (h : s.IsSound) (i : Nat) (hd : (es.map Entry.alphabet).Nodup)
    (hb : ∀ e ∈ es, s.Backs e) : (s.setEntries i es).IsSound where
  ordered := h.ordered
  distinct fs hfs := (List.mem_or_eq_of_mem_set hfs).elim (h.distinct fs) fun hfs => hfs ▸ hd
  backed fs hfs e he :=
    (List.mem_or_eq_of_mem_set hfs).elim (fun hfs => h.backed fs hfs e he)
      fun hfs => hb e (hfs ▸ he)
  seated c hc := by
    simp only [Store.setEntries, List.length_set]
    exact h.seated c hc

end IsSound

theorem map_alphabet_of_lists {rs : List Rule} (hb : ∀ e ∈ es, s.Backs e) (h : s.Lists es rs) :
    rs.map Rule.alphabet = es.map Entry.alphabet := by
  induction h with
  | nil => rfl
  | @cons e r es rs hr _ ih =>
      obtain ⟨q, hq, ha⟩ := hb e (List.mem_cons_self ..)
      obtain rfl : q = .ofRule r := Option.some.inj (hq.symm.trans hr)
      rw [List.map_cons, List.map_cons, ih fun d hd => hb d (List.mem_cons_of_mem e hd), ← ha]
      rfl

namespace IsSound

theorem exists_ruleAt (h : s.IsSound) {i : Nat} {q : Quota} (hq : s.quotas[i]? = some q) :
    ∃ r, q = .ofRule r ∧ s.ruleAt i = .ok r := by
  obtain ⟨r, hr, hrule⟩ :=
    Quota.rule_eq_ok_of_isOrdered (h.ordered q (List.mem_of_getElem? hq))
  refine ⟨r, hr, ?_⟩
  rw [ruleAt, quotaAt, cellAt_of_some hq]
  change q.rule.mapError Refusal.invalid = _
  rw [hrule]
  rfl

theorem exists_rulesOf (h : s.IsSound) (hb : ∀ e ∈ es, s.Backs e) :
    ∃ rs, s.Lists es rs ∧ s.rulesOf es = .ok rs := by
  have hread : ∀ e ∈ es, ∃ r, s.quotas[e.quota]? = some (.ofRule r) ∧
      s.ruleAt e.quota = .ok r := by
    intro e he
    obtain ⟨q, hq, -⟩ := hb e he
    obtain ⟨r, rfl, hr⟩ := h.exists_ruleAt hq
    exact ⟨r, hq, hr⟩
  obtain ⟨rs, hrs⟩ := exists_forall₂ hread
  exact ⟨rs, hrs.imp fun _ _ hr => hr.1, mapM_eq_ok_of_forall₂ (hrs.imp fun _ _ hr => hr.2)⟩

theorem exists_tableAt (h : s.IsSound) {i : Nat} (hes : s.tables[i]? = some es) :
    ∃ t, s.tableAt i = .ok t ∧ s.Lists es t.rules := by
  have hmem := List.mem_of_getElem? hes
  obtain ⟨rs, hlist, hrs⟩ := h.exists_rulesOf (h.backed es hmem)
  have hd : (rs.map Rule.alphabet).Nodup :=
    map_alphabet_of_lists (h.backed es hmem) hlist ▸ h.distinct es hmem
  refine ⟨.ofList rs, ?_, ?_⟩
  · rw [tableAt_of_some hes, hrs]
    rfl
  · rwa [RuleTable.rules_ofList_of_nodup hd]

theorem exists_policyAt (h : s.IsSound) {i : Nat} {c : PolicyCell}
    (hc : s.policies[i]? = some c) :
    ∃ p, s.policyAt i = .ok p ∧ s.Shows (.policy i) (.policy p) := by
  have hes := List.getElem?_eq_getElem (h.seated c (List.mem_of_getElem? hc))
  obtain ⟨t, ht, hlist⟩ := h.exists_tableAt hes
  refine ⟨⟨c.length, t⟩, ?_, c, _, hc, rfl, hes, hlist⟩
  rw [policyAt_of_some hc, ht]
  rfl

/-- A sound store can be read at every handle that it has, and is read as what is in its
cells. -/
theorem exists_partAt (h : s.IsSound) {k : Handle} (hk : s.Has k) :
    ∃ x, s.partAt k = .ok x ∧ s.Shows k x := by
  cases k with
  | quota i =>
      have hq := List.getElem?_eq_getElem hk
      obtain ⟨r, hqr, hr⟩ := h.exists_ruleAt hq
      exact ⟨.rule r, by rw [partAt, hr]; rfl, hq.trans (congrArg some hqr)⟩
  | table i =>
      have hes := List.getElem?_eq_getElem hk
      obtain ⟨t, ht, hlist⟩ := h.exists_tableAt hes
      exact ⟨.table t, by rw [partAt, ht]; rfl, _, hes, hlist⟩
  | policy i =>
      obtain ⟨p, hp, hshows⟩ := h.exists_policyAt (List.getElem?_eq_getElem hk)
      exact ⟨.policy p, by rw [partAt, hp]; rfl, hshows⟩

theorem has_of_mem_reachTable (h : s.IsSound) {i : Nat} (hi : i < s.tables.length) {k : Handle}
    (hk : k ∈ s.reachTable i) : s.Has k := by
  rcases List.mem_cons.1 hk with rfl | hk
  · exact hi
  · rw [List.getElem?_eq_getElem hi] at hk
    obtain ⟨e, he, rfl⟩ := List.mem_map.1 hk
    exact (h.backed _ (List.getElem_mem hi) e he).has

/-- What a handle of a sound store leads to is in the store. -/
theorem has_of_mem_reach (h : s.IsSound) {j k : Handle} (hj : s.Has j) (hk : k ∈ s.reach j) :
    s.Has k := by
  cases j with
  | quota i => rwa [List.mem_singleton.1 hk]
  | table i => exact h.has_of_mem_reachTable hj hk
  | policy i =>
      rcases List.mem_cons.1 hk with rfl | hk
      · exact hj
      · rw [List.getElem?_eq_getElem hj] at hk
        exact h.has_of_mem_reachTable (h.seated _ (List.getElem_mem hj)) hk

end IsSound

end Store

end PasswordPolicy
