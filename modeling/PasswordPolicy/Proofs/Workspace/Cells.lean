import PasswordPolicy.Workspace.Store

/-!
# The cells of a store

A handle names a cell, and two stores are the same at a handle when they have the same in
its cell. Adding cells leaves a store the same at every handle that it has (`Grows`), and
setting a cell leaves it the same at every other handle (`KeepsBut`).

`reach` lists the handles that a handle leads to, itself among them: a policy leads to its
table, and a table to the quotas of its entries. What a handle shows depends on no other
cells (`partAt_congr`).
-/

namespace PasswordPolicy

namespace Store

variable {s s' s'' : Store} {h : Handle}

/-- The handle names a cell of the store. -/
def Has (s : Store) : Handle → Prop
  | .quota i => i < s.quotas.length
  | .table i => i < s.tables.length
  | .policy i => i < s.policies.length

/-- Two stores have the same in the cell that a handle names. -/
def SameAt (s s' : Store) : Handle → Prop
  | .quota i => s'.quotas[i]? = s.quotas[i]?
  | .table i => s'.tables[i]? = s.tables[i]?
  | .policy i => s'.policies[i]? = s.policies[i]?

instance (s : Store) : DecidablePred s.Has := fun h => by
  cases h <;> exact Nat.decLt _ _

theorem SameAt.refl (s : Store) (h : Handle) : s.SameAt s h := by
  cases h <;> rfl

theorem SameAt.trans (h₁ : s.SameAt s' h) (h₂ : s'.SameAt s'' h) : s.SameAt s'' h := by
  cases h <;> exact Eq.trans h₂ h₁

theorem lt_length_congr {α : Type} {xs ys : List α} {i : Nat} (hsame : ys[i]? = xs[i]?) :
    i < ys.length ↔ i < xs.length := by
  rw [← Nat.not_le, ← Nat.not_le, ← List.getElem?_eq_none_iff, ← List.getElem?_eq_none_iff,
    hsame]

theorem SameAt.has_iff (hsame : s.SameAt s' h) : s'.Has h ↔ s.Has h := by
  cases h <;> exact lt_length_congr hsame

/-- Every cell of a store stands in another as it was. -/
def Grows (s s' : Store) : Prop := ∀ h, s.Has h → s.SameAt s' h

theorem Grows.refl (s : Store) : s.Grows s := fun h _ => SameAt.refl s h

theorem Grows.has (hg : s.Grows s') (hh : s.Has h) : s'.Has h :=
  (hg h hh).has_iff.2 hh

theorem Grows.trans (h₁ : s.Grows s') (h₂ : s'.Grows s'') : s.Grows s'' :=
  fun h hh => (h₁ h hh).trans (h₂ h (h₁.has hh))

theorem grows_addQuotas (s : Store) (qs : List Quota) :
    s.Grows { s with quotas := s.quotas ++ qs } := by
  intro h hh
  cases h with
  | quota i => exact List.getElem?_append_left hh
  | table i | policy i => rfl

theorem grows_addEntries (s : Store) (es : List Entry) : s.Grows (s.addEntries es).1 := by
  intro h hh
  cases h with
  | table i => exact List.getElem?_append_left hh
  | quota i | policy i => rfl

theorem grows_addPolicyCell (s : Store) (length table : Nat) :
    s.Grows (s.addPolicyCell length table).1 := by
  intro h hh
  cases h with
  | policy i => exact List.getElem?_append_left hh
  | quota i | table i => rfl

theorem grows_addRule (s : Store) (r : Rule) : s.Grows (s.addRule r).1 :=
  grows_addQuotas s [.ofRule r]

theorem grows_addTable (s : Store) (t : RuleTable) : s.Grows (s.addTable t).1 :=
  (grows_addQuotas s _).trans (grows_addEntries _ _)

theorem grows_addPolicy (s : Store) (p : Policy) : s.Grows (s.addPolicy p).1 :=
  (grows_addTable s p.table).trans (grows_addPolicyCell _ _ _)

/-- The cell of a table that is added comes last. -/
theorem tables_addTable (s : Store) (t : RuleTable) :
    (s.addTable t).1.tables[s.tables.length]? = some (entriesFrom s.quotas.length t.rules) :=
  List.getElem?_concat_length

theorem policies_addPolicy (s : Store) (p : Policy) :
    (s.addPolicy p).1.policies[s.policies.length]? = some ⟨p.length, s.tables.length⟩ :=
  List.getElem?_concat_length

theorem sameAt_setQuota (i : Nat) (q : Quota) (hne : h ≠ .quota i) :
    s.SameAt (s.setQuota i q) h := by
  cases h with
  | quota j =>
      have hij : i ≠ j := fun hij => hne (congrArg Handle.quota hij.symm)
      exact List.getElem?_set_ne hij
  | table j | policy j => rfl

theorem sameAt_setEntries (i : Nat) (es : List Entry) (hne : h ≠ .table i) :
    s.SameAt (s.setEntries i es) h := by
  cases h with
  | table j =>
      have hij : i ≠ j := fun hij => hne (congrArg Handle.table hij.symm)
      exact List.getElem?_set_ne hij
  | quota j | policy j => rfl

theorem has_setQuota_iff (i : Nat) (q : Quota) : (s.setQuota i q).Has h ↔ s.Has h := by
  cases h <;> simp [Has, setQuota]

theorem has_setEntries_iff (i : Nat) (es : List Entry) :
    (s.setEntries i es).Has h ↔ s.Has h := by
  cases h <;> simp [Has, setEntries]

/-- Every cell of a store stands in another, as it was unless it is the excepted one. -/
def KeepsBut (s s' : Store) (o : Option Handle) : Prop :=
  ∀ h, s.Has h → s'.Has h ∧ (o ≠ some h → s.SameAt s' h)

theorem Grows.keepsBut (hg : s.Grows s') (o : Option Handle) : s.KeepsBut s' o :=
  fun h hh => ⟨hg.has hh, fun _ => hg h hh⟩

theorem keepsBut_setQuota (s : Store) (i : Nat) (q : Quota) :
    s.KeepsBut (s.setQuota i q) (some (.quota i)) :=
  fun _ hh => ⟨(has_setQuota_iff i q).2 hh,
    fun hne => sameAt_setQuota i q fun heq => hne (congrArg some heq.symm)⟩

theorem keepsBut_setEntries (s : Store) (i : Nat) (es : List Entry) :
    s.KeepsBut (s.setEntries i es) (some (.table i)) :=
  fun _ hh => ⟨(has_setEntries_iff i es).2 hh,
    fun hne => sameAt_setEntries i es fun heq => hne (congrArg some heq.symm)⟩

/-- The handles of the quotas that entries refer to. -/
def quotaHandles (es : List Entry) : List Handle := es.map fun e => .quota e.quota

/-- A table and the quotas of its entries. -/
def reachTable (s : Store) (i : Nat) : List Handle :=
  .table i :: quotaHandles (s.tables[i]?.getD [])

/-- The handles that a handle leads to, itself among them. -/
def reach (s : Store) : Handle → List Handle
  | .quota i => [.quota i]
  | .table i => s.reachTable i
  | .policy i => .policy i :: ((s.policies[i]?.map fun c => s.reachTable c.table).getD [])

theorem cellAt_of_some {α : Type} {cells : List α} {i : Nat} {c : α} (hc : cells[i]? = some c) :
    cellAt cells i = .ok c := by
  rw [cellAt, hc]

theorem cellAt_of_none {α : Type} {cells : List α} {i : Nat} (hc : cells[i]? = none) :
    cellAt cells i = .error .dangling := by
  rw [cellAt, hc]

theorem tableAt_of_some {i : Nat} {es : List Entry} (hes : s.tables[i]? = some es) :
    s.tableAt i = (s.rulesOf es).map RuleTable.ofList := by
  rw [tableAt, entriesAt, cellAt_of_some hes]
  change Except.bind (s.rulesOf es) (fun rs => .ok (RuleTable.ofList rs)) = _
  cases s.rulesOf es <;> rfl

theorem tableAt_of_none {i : Nat} (hes : s.tables[i]? = none) :
    s.tableAt i = .error .dangling := by
  rw [tableAt, entriesAt, cellAt_of_none hes]
  rfl

theorem policyAt_of_some {i : Nat} {c : PolicyCell} (hc : s.policies[i]? = some c) :
    s.policyAt i = (s.tableAt c.table).map (Policy.mk c.length) := by
  rw [policyAt, cellAt_of_some hc]
  change Except.bind (s.tableAt c.table) (fun t => .ok (Policy.mk c.length t)) = _
  cases s.tableAt c.table <;> rfl

theorem policyAt_of_none {i : Nat} (hc : s.policies[i]? = none) :
    s.policyAt i = .error .dangling := by
  rw [policyAt, cellAt_of_none hc]
  rfl

theorem ruleAt_congr {i : Nat} (hsame : s.SameAt s' (.quota i)) : s'.ruleAt i = s.ruleAt i := by
  have hcell : s'.quotas[i]? = s.quotas[i]? := hsame
  simp only [ruleAt, quotaAt, cellAt, hcell]

theorem rulesOf_congr {es : List Entry} (hsame : ∀ e ∈ es, s.SameAt s' (.quota e.quota)) :
    s'.rulesOf es = s.rulesOf es := by
  unfold rulesOf
  induction es with
  | nil => rfl
  | cons e es ih =>
      rw [List.mapM_cons, List.mapM_cons, ruleAt_congr (hsame e (List.mem_cons_self ..)),
        ih fun d hd => hsame d (List.mem_cons_of_mem e hd)]

theorem reachTable_congr {i : Nat} (hsame : s.SameAt s' (.table i)) :
    s'.reachTable i = s.reachTable i := by
  have hcell : s'.tables[i]? = s.tables[i]? := hsame
  rw [reachTable, reachTable, hcell]

theorem tableAt_congr {i : Nat} (hsame : ∀ k ∈ s.reachTable i, s.SameAt s' k) :
    s'.reachTable i = s.reachTable i ∧ s'.tableAt i = s.tableAt i := by
  have htable : s.SameAt s' (.table i) := hsame _ (List.mem_cons_self ..)
  have hcell : s'.tables[i]? = s.tables[i]? := htable
  refine ⟨reachTable_congr htable, ?_⟩
  cases hes : s.tables[i]? with
  | none => rw [tableAt_of_none hes, tableAt_of_none (hcell.trans hes)]
  | some es =>
      have hrules : s'.rulesOf es = s.rulesOf es := by
        refine rulesOf_congr fun e he => hsame _ (List.mem_cons_of_mem _ ?_)
        rw [hes]
        exact List.mem_map_of_mem he
      rw [tableAt_of_some hes, tableAt_of_some (hcell.trans hes), hrules]

/-- What a handle shows depends only on the cells that it leads to. -/
theorem partAt_congr (hsame : ∀ k ∈ s.reach h, s.SameAt s' k) :
    s'.reach h = s.reach h ∧ s'.partAt h = s.partAt h := by
  cases h with
  | quota i =>
      refine ⟨rfl, ?_⟩
      rw [partAt, partAt, ruleAt_congr (hsame _ (List.mem_singleton_self _))]
  | table i =>
      obtain ⟨hreach, htable⟩ := tableAt_congr hsame
      exact ⟨hreach, by rw [partAt, partAt, htable]⟩
  | policy i =>
      have hcell : s'.policies[i]? = s.policies[i]? := hsame _ (List.mem_cons_self ..)
      cases hc : s.policies[i]? with
      | none =>
          rw [reach, reach, partAt, partAt, policyAt_of_none hc, policyAt_of_none (hcell.trans hc),
            hcell, hc]
          exact ⟨rfl, rfl⟩
      | some c =>
          have htable : ∀ k ∈ s.reachTable c.table, s.SameAt s' k := by
            intro k hk
            refine hsame k (List.mem_cons_of_mem _ ?_)
            rw [hc]
            exact hk
          obtain ⟨hreach, ht⟩ := tableAt_congr htable
          rw [reach, reach, partAt, partAt, policyAt_of_some hc, policyAt_of_some (hcell.trans hc),
            hcell, hc, Option.map_some, Option.map_some, hreach, ht]
          exact ⟨rfl, rfl⟩

end Store

end PasswordPolicy
