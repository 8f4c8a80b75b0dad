import PasswordPolicy.Proofs.Policy.Overriding
import PasswordPolicy.Proofs.Workspace.Isolation

/-!
# Overriding in a workspace

A policy that is put into new cells is read back as it was (`Store.policyAt_addPolicy`). So a
run of edits under one label comes to the policy that the edits make of the value, and what was
in the store is still there (`exists_editEach`). To apply overrides is such a run, from a label
for the policy that they start from. The policy itself stays as it was, and the other one is
the one that the overrides make of its value (`Policy.override_overwrites`).
-/

namespace PasswordPolicy

namespace Store

theorem ruleAt_of_some {s : Store} {i : Nat} {r : Rule} (h : s.quotas[i]? = some (.ofRule r)) :
    s.ruleAt i = .ok r := by
  rw [ruleAt, bind_eq_ok_iff]
  refine ⟨_, cellAt_of_some h, ?_⟩
  rw [Quota.rule_ofRule]
  rfl

theorem rulesOf_of_lists {s : Store} {es : List Entry} {rs : List Rule} (h : s.Lists es rs) :
    s.rulesOf es = .ok rs :=
  mapM_eq_ok_of_forall₂ (h.imp fun _ _ hr => ruleAt_of_some hr)

/-- Entries for rules whose quotas stand side by side stand for the rules. -/
theorem forall₂_entriesFrom (qs : List Quota) (rs : List Rule) :
    List.Forall₂ (fun e r => (qs ++ rs.map Quota.ofRule)[e.quota]? = some (.ofRule r))
      (entriesFrom qs.length rs) rs := by
  induction rs generalizing qs with
  | nil => exact .nil
  | cons r rs ih =>
      have hrest := ih (qs ++ [.ofRule r])
      rw [List.length_append, List.length_singleton, List.append_assoc] at hrest
      refine .cons ?_ hrest
      rw [List.getElem?_append_right (Nat.le_refl _), Nat.sub_self]
      rfl

theorem tableAt_addTable (s : Store) (t : RuleTable) :
    (s.addTable t).1.tableAt s.tables.length = .ok t := by
  rw [tableAt_of_some (s.tables_addTable t),
    rulesOf_of_lists (forall₂_entriesFrom s.quotas t.rules)]
  exact congrArg Except.ok (RuleTable.ofList_rules t)

/-- A policy that is put into new cells is read back. -/
theorem policyAt_addPolicy (s : Store) (p : Policy) :
    (s.addPolicy p).1.policyAt s.policies.length = .ok p := by
  have htable : (s.addPolicy p).1.tableAt s.tables.length = .ok p.table :=
    tableAt_addTable s p.table
  rw [policyAt_of_some (s.policies_addPolicy p), htable]
  rfl

theorem exists_policyAt_of_partAt {s : Store} {k : Handle} {p : Policy}
    (h : s.partAt k = .ok (.policy p)) : ∃ i, k = .policy i ∧ s.policyAt i = .ok p := by
  cases k with
  | quota i =>
      obtain ⟨r, -, hr⟩ := bind_eq_ok_iff.1 h
      cases hr
  | table i =>
      obtain ⟨t, -, ht⟩ := bind_eq_ok_iff.1 h
      cases ht
  | policy i =>
      obtain ⟨q, hq, heq⟩ := bind_eq_ok_iff.1 h
      cases heq
      exact ⟨i, rfl, hq⟩

end Store

namespace Workspace

variable {w : Workspace} {label : Text} {p q : Policy}

/-- The workspace after edits of the policy that a label is bound to, each of which must succeed.
The label goes over to each new policy. -/
def editEach (w : Workspace) (label : Text) (es : List Edit) : Except Refusal Workspace :=
  es.foldlM (fun w e => (w.perform (.edit label label e)).map Prod.snd) w

/-- The workspace after overrides are applied to what one label is bound to. Another label is
bound to it as well, and then goes over to each new policy. -/
def override (w : Workspace) (label base : Text) (o : Overrides) : Except Refusal Workspace := do
  let k ← w.handle base
  (w.bind label k).editEach label o.edits

theorem policy_of_handle {k : Handle} (hk : w.handle label = .ok k)
    (hp : w.store.partAt k = .ok (.policy p)) : w.policy label = .ok p := by
  obtain ⟨i, rfl, hi⟩ := Store.exists_policyAt_of_partAt hp
  exact bind_eq_ok_iff.2 ⟨i, policyPlace_of_handle hk, hi⟩

theorem policy_bindPolicy (w : Workspace) (label : Text) (p : Policy) :
    (w.bindPolicy label p).policy label = .ok p :=
  bind_eq_ok_iff.2 ⟨_, policyPlace_of_handle (handle_bind_self ..), w.store.policyAt_addPolicy p⟩

theorem perform_edit {base : Text} {e : Edit} (hp : w.policy base = .ok p)
    (he : p.edit e = .ok q) :
    w.perform (.edit label base e) = .ok (.done, w.bindPolicy label q) := by
  rw [perform, bind_eq_ok_iff]
  refine ⟨p, hp, bind_eq_ok_iff.2 ⟨q, ?_, rfl⟩⟩
  rw [he]
  rfl

/-- Edits under a label come to what they make of the policy as a value, in new cells. -/
theorem exists_editEach {es : List Edit} (hp : w.policy label = .ok p)
    (h : es.foldlM Policy.edit p = .ok q) :
    ∃ w', w.editEach label es = .ok w' ∧ w'.policy label = .ok q ∧ w.store.Grows w'.store := by
  induction es generalizing w p with
  | nil =>
      cases h
      exact ⟨w, rfl, hp, Store.Grows.refl _⟩
  | cons e es ih =>
      rw [List.foldlM_cons, bind_eq_ok_iff] at h
      obtain ⟨m, hm, h⟩ := h
      obtain ⟨w', hw', hq, hgrows⟩ := ih (w.policy_bindPolicy label m) h
      refine ⟨w', ?_, hq, (Store.grows_addPolicy w.store m).trans hgrows⟩
      rw [editEach, List.foldlM_cons, perform_edit hp hm]
      exact hw'

/-- Overrides in a workspace come to what they make of the policy as a value. All that was in the
store is still there, the policy that they start from with it. -/
theorem exists_override (hw : w.IsSound) {base : Text} {k : Handle} {o : Overrides}
    (hk : w.handle base = .ok k) (hp : w.store.partAt k = .ok (.policy p))
    (h : p.override o = .ok q) :
    ∃ w', w.override label base o = .ok w' ∧ w'.policy label = .ok q ∧
      w'.store.partAt k = .ok (.policy p) ∧ w.store.Grows w'.store := by
  rw [Policy.override_eq_foldlM] at h
  have hlabel : (w.bind label k).policy label = .ok p :=
    policy_of_handle (handle_bind_self w label k) hp
  obtain ⟨w', hw', hq, hgrows⟩ := exists_editEach hlabel h
  refine ⟨w', bind_eq_ok_iff.2 ⟨k, hk, hw'⟩, hq, ?_, hgrows⟩
  rw [← hp]
  have hhas := hw.has_of_handle hk
  exact (Store.partAt_congr fun j hj => hgrows j (hw.store.has_of_mem_reach hhas hj)).2

end Workspace

namespace Policy

variable {p q : Policy} {o : Overrides}

/-- Overrides that apply replace the length, if they give one. The rule for an alphabet is the
last one that they have for it in the order of the standard classes and the further rules, and
otherwise that of the policy. The alphabets of the policy stay where they are, and those that
are named for the first time follow. Applied again they change nothing. In a workspace the
policy that they start from stays as it was. -/
theorem override_overwrites (h : p.override o = .ok q) :
    o.rules = [o.upper.map fun i => ⟨i, .ofClass .upper⟩,
        o.lower.map fun i => ⟨i, .ofClass .lower⟩, o.number.map fun i => ⟨i, .ofClass .number⟩,
        o.symbol.map fun i => ⟨i, .ofClass .symbol⟩].filterMap id ++ o.custom ∧
      p.Overwrites o q ∧
      q.override o = .ok q ∧
      ∀ w : Workspace, w.IsReachable → ∀ label base k, w.handle base = .ok k →
        w.store.partAt k = .ok (.policy p) →
        ∃ w', w.override label base o = .ok w' ∧ w'.policy label = .ok q ∧
          w'.store.partAt k = .ok (.policy p) ∧ w.store.Grows w'.store :=
  ⟨o.rules_eq, overwrites_of_override h, override_of_override h,
    fun _ hw _ _ _ hk hp => Workspace.exists_override hw.isSound hk hp h⟩

/-- A policy with rules for lower and upper letters, in this order. -/
def lowerFirst : Policy :=
  ⟨16, .ofList [⟨.exactly 2, .ofClass .lower⟩, ⟨.exactly 1, .ofClass .upper⟩]⟩

/-- Overrides for digits and upper letters, with a further rule for upper letters. -/
def upperTwice : Overrides :=
  { Overrides.empty with
    length := some 20
    upper := some (.atLeast 5)
    number := some (.atLeast 1)
    custom := [⟨.atLeast 0, .literal ['#']⟩, ⟨.exactly 3, .ofClass .upper⟩] }

/-- A workspace in which a label is bound to the policy. -/
def lowerFirstHeld : Workspace :=
  (Workspace.empty (.cycle #[0])).run
    [.act (.makePolicy ['b']
      ⟨.fresh 16 [.written "2|:lower:".toList, .written "1|:upper:".toList], []⟩)]

/-- The further rule prevails, in the place of the rule that the policy has. -/
theorem override_overwrites_upperTwice :
    ∃ q, lowerFirst.override upperTwice = .ok q ∧
      q.text = "20//2|:lower://3|:upper://1+|:number://0+|#".toList ∧
      lowerFirst.Overwrites upperTwice q ∧ q.override upperTwice = .ok q ∧
      lowerFirstHeld.IsReachable ∧ lowerFirstHeld.handle ['b'] = .ok (.policy 0) ∧
      ∃ w', lowerFirstHeld.override ['r'] ['b'] upperTwice = .ok w' ∧ w'.policy ['r'] = .ok q ∧
        w'.store.partAt (.policy 0) = .ok (.policy lowerFirst) := by
  have h : lowerFirst.override upperTwice = .ok ⟨20, lowerFirst.table.pushAll upperTwice.rules⟩ :=
    rfl
  have hreachable : lowerFirstHeld.IsReachable := ⟨_, _, rfl⟩
  have hheld : lowerFirstHeld.store.partAt (.policy 0) = .ok (.policy lowerFirst) := rfl
  obtain ⟨-, hoverwrites, hagain, hworkspace⟩ := override_overwrites h
  obtain ⟨w', hw', hlabel, hbase, -⟩ := hworkspace lowerFirstHeld hreachable ['r'] ['b'] _ rfl hheld
  exact ⟨_, h, by decide, hoverwrites, hagain, hreachable, rfl, w', hw', hlabel, hbase⟩

end Policy

end PasswordPolicy
