import PasswordPolicy.Proofs.Workspace.Soundness

/-!
# What a step changes, and what stays apart

The only cells that change are the quota that a step draws under and the table that a step
pushes into (`target?`). Every other cell stays as it was, so what does not lead to the
target is shown as before (`IsFramed`).

What is built, copied, adopted or edited is made in new cells, which nothing older leads to
(`IsApart`). So it is not changed by what later happens to older cells. In the other
direction, older tables and policies only come to lead to a new quota when a step pushes it
into an older table (`Shields`). Until then drawing under it changes nothing older.
-/

namespace PasswordPolicy

namespace Store

variable {old s s' : Store} {i : Nat}

/-- Everything of an older store is still there, and no table of it leads to the quota. -/
structure Shields (old s : Store) (i : Nat) : Prop where
  has : ∀ k, old.Has k → s.Has k
  tables : ∀ j, old.Has (.table j) → .quota i ∉ s.reachTable j
  policies : ∀ j, old.Has (.policy j) → old.SameAt s (.policy j)

theorem Shields.not_mem_reach (h : old.Shields s i) (hold : old.IsSound)
    (hi : ¬ old.Has (.quota i)) {k : Handle} (hk : old.Has k) : .quota i ∉ s.reach k := by
  cases k with
  | quota j =>
      intro hmem
      obtain rfl : i = j := Handle.quota.inj (List.mem_singleton.1 hmem)
      exact hi hk
  | table j => exact h.tables j hk
  | policy j =>
      have hcell : s.policies[j]? = old.policies[j]? := h.policies j hk
      have hseat := hold.seated _ (List.getElem_mem hk)
      rw [reach, hcell, List.getElem?_eq_getElem hk]
      intro hmem
      exact h.tables _ hseat ((List.mem_cons.1 hmem).resolve_left Handle.noConfusion)

theorem shields_of_grows (hold : old.IsSound) (hg : old.Grows s) (hi : ¬ old.Has (.quota i)) :
    old.Shields s i where
  has _ hk := hg.has hk
  tables j hj hmem := by
    rw [reachTable_congr (hg _ hj)] at hmem
    exact hi (hold.has_of_mem_reachTable hj hmem)
  policies j hj := hg _ hj

theorem quota_mem_reachTable_iff {j : Nat} {es : List Entry} (hes : s.tables[j]? = some es) :
    .quota i ∈ s.reachTable j ↔ ∃ e ∈ es, e.quota = i := by
  simp [reachTable, quotaHandles, hes]

/-- A table into which a quota is pushed leads to that quota and to what it led to before. -/
theorem mem_reachTable_setEntries {j : Nat} {e : Entry} {es : List Entry}
    (hes : s.tables[j]? = some es)
    (h : .quota i ∈ (s.setEntries j (KeyedList.place Entry.alphabet e es)).reachTable j) :
    .quota i ∈ s.reachTable j ∨ e.quota = i := by
  have hset : (s.setEntries j (KeyedList.place Entry.alphabet e es)).tables[j]? =
      some (KeyedList.place Entry.alphabet e es) :=
    List.getElem?_set_self (List.getElem?_eq_some_iff.1 hes).1
  obtain ⟨d, hd, hdi⟩ := (quota_mem_reachTable_iff hset).1 h
  rcases KeyedList.mem_of_mem_place Entry.alphabet hd with rfl | hd
  · exact .inr hdi
  · exact .inl ((quota_mem_reachTable_iff hes).2 ⟨d, hd, hdi⟩)

/-- A table that is added leads to new cells only. -/
theorem not_has_of_mem_reachTable_addTable (s : Store) (t : RuleTable) {k : Handle}
    (hk : k ∈ (s.addTable t).1.reachTable s.tables.length) : ¬ s.Has k := by
  rw [reachTable, tables_addTable] at hk
  rcases List.mem_cons.1 hk with rfl | hk
  · exact Nat.lt_irrefl _
  · obtain ⟨e, he, rfl⟩ := List.mem_map.1 hk
    obtain ⟨j, r, -, rfl⟩ := exists_of_mem_entriesFrom he
    exact Nat.not_lt.2 (Nat.le_add_right _ j)

end Store

namespace Workspace

variable {w w' : Workspace} {t : Step} {k : Handle} {label : Text}

/-- The cell that a step changes, which is the quota that it draws under or the table that it
pushes into. -/
def target? (w : Workspace) : Step → Option Handle
  | .draw label | .drawDue label => (w.quotaPlace label).toOption.map .quota
  | .act (.push table _) => (w.tablePlace table).toOption.map .table
  | .act _ => none

/-- The step pushes a quota into a table, each given by its place. -/
def Pushes (w : Workspace) (t : Step) (table quota : Nat) : Prop :=
  ∃ into rule, t = .act (.push into rule) ∧ w.tablePlace into = .ok table ∧
    w.quotaPlace rule = .ok quota

/-- The steps of a run, each with the workspace in which it is taken. -/
def history (w : Workspace) : List Step → List (Workspace × Step)
  | [] => []
  | t :: steps => (w, t) :: (w.step t).2.history steps

theorem target?_of_makes? {a : Action} (ha : a.makes? = some label) :
    w.target? (.act a) = none := by
  cases a <;> first | rfl | cases ha

theorem target?_of_asks {a : Action} (ha : a.asks = true) : w.target? (.act a) = none := by
  cases a <;> first | rfl | cases ha

theorem target?_ne_policy (w : Workspace) (t : Step) (i : Nat) :
    w.target? t ≠ some (.policy i) := by
  intro h
  unfold target? at h
  split at h
  case h_4 => cases h
  all_goals
    obtain ⟨j, -, hj⟩ := Option.map_eq_some_iff.1 h
    cases hj

theorem exists_push_of_target? {i : Nat} (h : w.target? t = some (.table i)) :
    ∃ into rule, t = .act (.push into rule) ∧ w.tablePlace into = .ok i := by
  unfold target? at h
  split at h
  case h_4 => cases h
  all_goals
    obtain ⟨j, hplace, hj⟩ := Option.map_eq_some_iff.1 h
    cases hj
  exact ⟨_, _, rfl, toOption_eq_some_iff.1 hplace⟩

theorem part_of_handle (h : w.handle label = .ok k) : w.part label = w.store.partAt k := by
  rw [part, h]
  rfl

theorem handle_bind_self (w : Workspace) (label : Text) (k : Handle) :
    (w.bind label k).handle label = .ok k := by
  rw [handle, bind, List.lookup_cons_self]

theorem handle_congr (h : w'.labels = w.labels) (label : Text) :
    w'.handle label = w.handle label := by
  rw [handle, handle, h]

namespace Made

theorem grows (h : w.Made label w') : w.store.Grows w'.store := by
  cases h with
  | rule r => exact Store.grows_addRule w.store r
  | table t => exact Store.grows_addTable w.store t
  | policy p => exact Store.grows_addPolicy w.store p

theorem exists_handle (h : w.Made label w') :
    ∃ k, w'.handle label = .ok k ∧ ∀ j ∈ w'.store.reach k, ¬ w.store.Has j := by
  cases h with
  | rule r =>
      refine ⟨.quota w.store.quotas.length, handle_bind_self .., fun j hj => ?_⟩
      rw [List.mem_singleton.1 hj]
      exact Nat.lt_irrefl _
  | table t =>
      refine ⟨.table w.store.tables.length, handle_bind_self .., fun j hj => ?_⟩
      exact Store.not_has_of_mem_reachTable_addTable w.store t hj
  | policy p =>
      refine ⟨.policy w.store.policies.length, handle_bind_self .., fun j hj => ?_⟩
      change j ∈ (w.store.addPolicy p).1.reach _ at hj
      rw [Store.reach, Store.policies_addPolicy] at hj
      rcases List.mem_cons.1 hj with rfl | hj
      · exact Nat.lt_irrefl _
      · exact Store.not_has_of_mem_reachTable_addTable w.store p.table hj

end Made

namespace Becomes

variable {a : Action}

theorem keepsBut (h : w.Becomes a w') : w.store.KeepsBut w'.store (w.target? (.act a)) := by
  cases h with
  | made _ hmade => exact hmade.grows.keepsBut _
  | gathered _ => exact (Store.grows_addEntries w.store _).keepsBut _
  | shared _ => exact (Store.grows_addPolicyCell w.store _ _).keepsBut _
  | pushed hi _ _ _ =>
      rw [target?, hi]
      exact Store.keepsBut_setEntries w.store _ _
  | labelled _ _ =>
      rw [store_bindEntries]
      exact (Store.Grows.refl _).keepsBut _
  | asked _ => exact (Store.Grows.refl _).keepsBut _

theorem labels (h : w.Becomes a w') (ht : w.target? (.act a) ≠ none) :
    w'.labels = w.labels := by
  cases h with
  | made ha _ => exact absurd (target?_of_makes? ha) ht
  | labelled ha _ => exact absurd (target?_of_asks ha) ht
  | gathered _ | shared _ => exact absurd rfl ht
  | pushed _ _ _ _ | asked _ => rfl

end Becomes

theorem keepsBut_step (hw : w.IsSound) (t : Step) :
    w.store.KeepsBut (w.step t).2.store (w.target? t) := by
  have h := goes_step hw t
  generalize w.step t = r at h
  cases h with
  | acted h => exact h.keepsBut
  | refused _ => exact (Store.Grows.refl _).keepsBut _
  | drew hi _ | drewDue hi _ =>
      rw [target?, hi]
      exact Store.keepsBut_setQuota w.store _ _

theorem labels_step (hw : w.IsSound) (ht : w.target? t ≠ none) :
    (w.step t).2.labels = w.labels := by
  have h := goes_step hw t
  generalize w.step t = r at h
  cases h with
  | acted h => exact h.labels ht
  | refused _ | drew _ _ | drewDue _ _ => rfl

theorem shown_step (hw : w.IsSound) (hk : w.store.Has k)
    (hfree : ∀ j ∈ w.store.reach k, w.target? t ≠ some j) :
    (w.step t).2.store.reach k = w.store.reach k ∧
      (w.step t).2.store.partAt k = w.store.partAt k :=
  Store.partAt_congr fun j hj =>
    (keepsBut_step hw t j (hw.store.has_of_mem_reach hk hj)).2 (hfree j hj)

theorem shown_run (hw : w.IsSound) (hk : w.store.Has k) (steps : List Step)
    (hfree : ∀ x ∈ w.history steps, ∀ j ∈ w.store.reach k, x.1.target? x.2 ≠ some j) :
    (w.run steps).store.partAt k = w.store.partAt k := by
  induction steps generalizing w with
  | nil => rfl
  | cons t steps ih =>
      obtain ⟨hreach, hpart⟩ := shown_step hw hk (hfree _ (List.mem_cons_self ..))
      have hk' := (keepsBut_step hw t k hk).1
      rw [← hpart]
      -- The handle leads to the same after the step, so the rest of the run spares it too.
      refine ih (hw.step t) hk' fun x hx j hj => ?_
      exact hfree x (List.mem_cons_of_mem _ hx) j (hreach ▸ hj)

/-- An entry that is new in a table was pushed. -/
theorem mem_reachTable_step (hw : w.IsSound) {i j : Nat} (hj : w.store.Has (.table j))
    (h : .quota i ∈ (w.step t).2.store.reachTable j) :
    .quota i ∈ w.store.reachTable j ∨ w.Pushes t j i := by
  -- Only a push can have the table as its target, and any other step leaves it as it was.
  by_cases ht : w.target? t = some (.table j)
  · obtain ⟨into, rule, rfl, hplace⟩ := exists_push_of_target? ht
    have hgoes := goes_step hw (.act (.push into rule))
    generalize w.step (.act (.push into rule)) = r at hgoes h
    cases hgoes with
    | refused _ => exact .inl h
    | acted hbecomes =>
        cases hbecomes with
        | made ha _ | labelled ha _ | asked ha => cases ha
        | @pushed _ _ k e es hk hrule _ hes =>
            obtain rfl : k = j := Except.ok.inj (hk.symm.trans hplace)
            rcases Store.mem_reachTable_setEntries hes h with hmem | rfl
            · exact .inl hmem
            · exact .inr ⟨into, rule, rfl, hplace, hrule⟩
  · have hsame := (keepsBut_step hw t _ hj).2 ht
    rw [Store.reachTable_congr hsame] at h
    exact .inl h

section Shielding

variable {old : Store} {i : Nat}

theorem shields_step (hw : w.IsSound) (h : old.Shields w.store i)
    (hp : ∀ j, old.Has (.table j) → ¬ w.Pushes t j i) : old.Shields (w.step t).2.store i where
  has k hk := (keepsBut_step hw t k (h.has k hk)).1
  tables j hj hmem := by
    rcases mem_reachTable_step hw (h.has _ hj) hmem with hmem | hpush
    · exact h.tables j hj hmem
    · exact hp j hj hpush
  policies j hj :=
    (h.policies j hj).trans ((keepsBut_step hw t _ (h.has _ hj)).2 (target?_ne_policy w t j))

theorem shields_run (hw : w.IsSound) (h : old.Shields w.store i) (steps : List Step)
    (hp : ∀ x ∈ w.history steps, ∀ j, old.Has (.table j) → ¬ x.1.Pushes x.2 j i) :
    old.Shields (w.run steps).store i := by
  induction steps generalizing w with
  | nil => exact h
  | cons t steps ih =>
      have hstep := shields_step hw h (hp _ (List.mem_cons_self ..))
      exact ih (hw.step t) hstep fun x hx => hp x (List.mem_cons_of_mem _ hx)

end Shielding

/-- A step changes at most its target. -/
structure IsFramed (w : Workspace) (t : Step) : Prop where
  /-- Every cell but the target stays as it was. -/
  cells : ∀ k, w.store.Has k → w.target? t ≠ some k → w.store.SameAt (w.step t).2.store k
  /-- A step that has a target binds no label. -/
  labels : w.target? t ≠ none → (w.step t).2.labels = w.labels
  /-- A label that stays bound to what does not lead to the target shows the same. -/
  shown : ∀ label k, w.handle label = .ok k → (w.step t).2.handle label = .ok k →
    (∀ j ∈ w.store.reach k, w.target? t ≠ some j) → (w.step t).2.part label = w.part label

theorem IsSound.isFramed (hw : w.IsSound) (t : Step) : w.IsFramed t where
  cells k hk ht := (keepsBut_step hw t k hk).2 ht
  labels ht := labels_step hw ht
  shown label k hk hk' hfree := by
    rw [part_of_handle hk, part_of_handle hk']
    exact (shown_step hw (hw.has_of_handle hk) hfree).2

/-- What a handle leads to in a workspace is apart from what an earlier workspace has. -/
structure IsApart (w w' : Workspace) (k : Handle) : Prop where
  /-- It leads to new cells only. -/
  fresh : ∀ j ∈ w'.store.reach k, ¬ w.store.Has j
  /-- It leads to nothing that an earlier label leads to. -/
  unreached : ∀ label g, w.handle label = .ok g →
    ∀ j ∈ w'.store.reach k, j ∉ w.store.reach g ∧ j ∉ w'.store.reach g
  /-- It shows the same as long as the targets of the steps are earlier cells. -/
  steady : ∃ x, ∀ steps, (∀ y ∈ w'.history steps, ∀ j, y.1.target? y.2 = some j → w.store.Has j) →
    (w'.run steps).store.partAt k = .ok x
  /-- Drawing under a quota that was not there earlier, its own among them, changes nothing
  that an earlier label shows, unless the quota was pushed into an earlier table. -/
  harmless : ∀ steps t i, ¬ w.store.Has (.quota i) →
    (w'.run steps).target? t = some (.quota i) →
    (∀ y ∈ w'.history steps, ∀ j, w.store.Has (.table j) → ¬ y.1.Pushes y.2 j i) →
    ∀ label g, w.handle label = .ok g → (w'.run steps).handle label = .ok g →
      ((w'.run steps).step t).2.part label = (w'.run steps).part label

theorem isApart_of_grows (hw : w.IsSound) (hw' : w'.IsSound) (hg : w.store.Grows w'.store)
    (hk : w'.store.Has k) (hfresh : ∀ j ∈ w'.store.reach k, ¬ w.store.Has j) :
    w.IsApart w' k where
  fresh := hfresh
  unreached label g hlabel j hj := by
    have hold := hw.has_of_handle hlabel
    have hreach : w'.store.reach g = w.store.reach g :=
      (Store.partAt_congr fun h hh => hg h (hw.store.has_of_mem_reach hold hh)).1
    have hnot : j ∉ w.store.reach g := fun h => hfresh j hj (hw.store.has_of_mem_reach hold h)
    exact ⟨hnot, hreach ▸ hnot⟩
  steady := by
    obtain ⟨x, hx, -⟩ := hw'.store.exists_partAt hk
    refine ⟨x, fun steps htargets => ?_⟩
    rw [shown_run hw' hk steps, hx]
    exact fun y hy j hj ht => hfresh j hj (htargets y hy j ht)
  harmless steps t i hi ht hpush label g hlabel hlabel' := by
    have hv := hw'.run steps
    have hshields := shields_run hw' (Store.shields_of_grows hw.store hg hi) steps hpush
    have hlabels := labels_step hv (ht ▸ Option.some_ne_none _)
    refine (hv.isFramed t).shown label g hlabel' ?_ fun j hj htj => ?_
    · rw [handle_congr hlabels, hlabel']
    · obtain rfl : Handle.quota i = j := Option.some.inj (ht.symm.trans htj)
      exact hshields.not_mem_reach hw.store hi (hw.has_of_handle hlabel) hj

theorem made_of_step (hw : w.IsSound) {a : Action} {answer : Answer} (ha : a.makes? = some label)
    (h : w.step (.act a) = (.ok answer, w')) : w.Made label w' := by
  have hgoes := goes_step hw (.act a)
  rw [h] at hgoes
  cases hgoes with
  | acted hbecomes =>
      cases hbecomes with
      | made ha' hmade =>
          obtain rfl := Option.some.inj (ha.symm.trans ha')
          exact hmade
      | labelled hasks _ | asked hasks => cases (Action.makes?_of_asks hasks).symm.trans ha
      | gathered _ | shared _ | pushed _ _ _ _ => cases ha

/-- A step changes at most its target, which is the quota that it draws under or the table
that it pushes into. What is built, copied, adopted or edited is apart from all that was there
before. -/
theorem isolated_of_isReachable (h : w.IsReachable) :
    (∀ t, w.IsFramed t) ∧
      ∀ a label answer w', a.makes? = some label → w.step (.act a) = (.ok answer, w') →
        ∃ k, w'.handle label = .ok k ∧ w.IsApart w' k := by
  have hw := h.isSound
  refine ⟨hw.isFramed, fun a label answer w' ha hstep => ?_⟩
  have hmade := made_of_step hw ha hstep
  have hw' := hw.made hmade
  obtain ⟨k, hk, hfresh⟩ := hmade.exists_handle
  exact ⟨k, hk, isApart_of_grows hw hw' hmade.grows (hw'.has_of_handle hk) hfresh⟩

/-- The spent workspace with a copy of its policy. -/
def copied : Workspace := (spent.step (.act (.copy ['c'] ['p']))).2

theorem isolated_of_isReachable_copied :
    spent.IsReachable ∧ copied.handle ['c'] = .ok (.policy 1) ∧
      copied.store.reach (.policy 1) = [.policy 1, .table 1, .quota 2, .quota 3] ∧
      (∀ t, spent.IsFramed t) ∧ spent.IsApart copied (.policy 1) := by
  have h : spent.IsReachable := ⟨_, _, rfl⟩
  obtain ⟨hframed, hmade⟩ := isolated_of_isReachable h
  obtain ⟨k, hk, hapart⟩ := hmade (.copy ['c'] ['p']) ['c'] .done copied rfl rfl
  obtain rfl : k = .policy 1 := Except.ok.inj (hk.symm.trans rfl)
  exact ⟨h, rfl, by decide, hframed, hapart⟩

end Workspace

end PasswordPolicy
