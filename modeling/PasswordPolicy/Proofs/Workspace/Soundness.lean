import PasswordPolicy.Proofs.Workspace.Outcome

/-!
# Every workspace that can be reached is sound

Drawing under a quota keeps its counts in order, even when it fails midway, so a step keeps
a workspace sound (`IsSound.step`), and a run keeps it sound. In a sound workspace everything
can be displayed and copied, and every policy has its totals (`isSound_of_isReachable`),
whoever else drew under the quotas or pushed into the tables that it uses.
-/

namespace PasswordPolicy

namespace Quota

variable {q : Quota}

theorem isOrdered_draw (h : q.IsOrdered) (s : Source) : (q.draw s).quota.IsOrdered := by
  rw [quota_draw]
  split
  · exact le_of_mem_left_spend h
  · exact h

theorem drawMany_succ_cases (n : Nat) (q : Quota) (s : Source) :
    (drawMany (n + 1) q s).quota = (q.draw s).quota ∨
      (drawMany (n + 1) q s).quota = (drawMany n (q.draw s).quota (q.draw s).source).quota := by
  rw [drawMany]
  split
  · exact .inl rfl
  · exact .inl rfl
  · exact .inr rfl

/-- Whatever a draw keeps of a quota, a number of draws keeps. -/
theorem drawMany_induction {P : Quota → Prop} (hP : ∀ q s, P q → P (q.draw s).quota) (n : Nat)
    (q : Quota) (s : Source) (h : P q) : P (drawMany n q s).quota := by
  induction n generalizing q s with
  | zero => exact h
  | succ n ih =>
      rcases drawMany_succ_cases n q s with hq | hq
      · rw [hq]
        exact hP q s h
      · rw [hq]
        exact ih _ _ (hP q s h)

theorem isOrdered_drawDue (h : q.IsOrdered) (s : Source) : (q.drawDue s).quota.IsOrdered :=
  drawMany_induction (P := IsOrdered) (fun _ s h => isOrdered_draw h s) q.due q s h

theorem alphabet_quota_drawDue (q : Quota) (s : Source) :
    (q.drawDue s).quota.alphabet = q.alphabet :=
  drawMany_induction (P := fun p => p.alphabet = q.alphabet)
    (fun p s h => (alphabet_quota_draw p s).trans h) q.due q s rfl

end Quota

namespace Workspace

variable {w w' : Workspace}

theorem mem_labels_bind {label : Text} {k : Handle} {b : Text × Handle}
    (hb : b ∈ (w.bind label k).labels) : b = (label, k) ∨ b ∈ w.labels :=
  (List.mem_cons.1 hb).imp_right List.mem_of_mem_filter

namespace IsSound

/-- Something is bound to a label in a store that has grown. -/
theorem bind {s : Store} (hw : w.IsSound) (hs : s.IsSound) (hg : w.store.Grows s) {k : Handle}
    (hk : s.Has k) (label : Text) : ({ w with store := s }.bind label k).IsSound where
  store := hs
  bound b hb := by
    rcases mem_labels_bind hb with rfl | hb
    · exact hk
    · exact hg.has (hw.bound b hb)

theorem bindEntries (hw : w.IsSound) (labels : List Text) {es : List Entry}
    (hes : ∀ e ∈ es, w.store.Backs e) : (w.bindEntries labels es).IsSound := by
  have hzip : ∀ b ∈ labels.zip es, w.store.Has (.quota b.2.quota) :=
    fun b hb => (hes b.2 (List.of_mem_zip hb).2).has
  unfold Workspace.bindEntries
  generalize labels.zip es = bs at hzip
  induction bs generalizing w with
  | nil => exact hw
  | cons b bs ih =>
      have hb := hw.bind hw.store (Store.Grows.refl _) (hzip b (List.mem_cons_self ..)) b.1
      exact ih hb hes fun c hc => hzip c (List.mem_cons_of_mem b hc)

theorem made {label : Text} (hw : w.IsSound) (h : w.Made label w') : w'.IsSound := by
  cases h with
  | rule r =>
      refine hw.bind (hw.store.addRule r) (Store.grows_addRule _ r) ?_ label
      simp [Store.Has, Store.addRule, Store.addQuota]
  | table t =>
      refine hw.bind (hw.store.addTable t) (Store.grows_addTable _ t) ?_ label
      simp [Store.Has, Store.addTable, Store.addEntries]
  | policy p =>
      refine hw.bind (hw.store.addPolicy p) (Store.grows_addPolicy _ p) ?_ label
      simp [Store.Has, Store.addPolicy, Store.addPolicyCell, Store.addTable, Store.addEntries]

theorem becomes {a : Action} (hw : w.IsSound) (h : w.Becomes a w') : w'.IsSound := by
  cases h with
  | made _ hmade => exact hw.made hmade
  | @gathered label items es hes =>
      have hd := KeyedList.nodup_foldl_place Entry.alphabet es [] List.nodup_nil
      refine hw.bind (hw.store.addEntries hd fun e he => ?_) (Store.grows_addEntries _ _) ?_ label
      · have hmem := KeyedList.mem_of_mem_foldl_place Entry.alphabet he
        exact hes e (hmem.resolve_left List.not_mem_nil)
      · simp [Store.Has, Store.addEntries]
  | @shared label table length n i hi =>
      refine hw.bind (hw.store.addPolicyCell n hi) (Store.grows_addPolicyCell _ n i) ?_ label
      simp [Store.Has, Store.addPolicyCell]
  | @pushed table rule i e es hi he hback hes =>
      have hmem := List.mem_of_getElem? hes
      refine ⟨hw.store.setEntries i ?_ ?_, ?_⟩
      · exact KeyedList.nodup_place Entry.alphabet (hw.store.distinct es hmem)
      · intro d hd
        rcases KeyedList.mem_of_mem_place Entry.alphabet hd with rfl | hd
        · exact hback
        · exact hw.store.backed es hmem d hd
      · exact fun b hb => (Store.has_setEntries_iff i _).2 (hw.bound b hb)
  | labelled _ hes => exact hw.bindEntries _ hes
  | asked _ => exact ⟨hw.store, hw.bound⟩

theorem drawn {α : Type} {i : Nat} {q : Quota} {d : Drawing α} (hw : w.IsSound)
    (hq : w.store.quotas[i]? = some q) (ha : d.quota.alphabet = q.alphabet)
    (ho : q.IsOrdered → d.quota.IsOrdered) : (w.drawn i d).IsSound where
  store := hw.store.setQuota hq ha (ho (hw.store.ordered q (List.mem_of_getElem? hq)))
  bound b hb := (Store.has_setQuota_iff i _).2 (hw.bound b hb)

/-- A step keeps a workspace sound, whether it succeeds or fails. -/
theorem step (hw : w.IsSound) (t : Step) : (w.step t).2.IsSound := by
  have h := goes_step hw t
  generalize w.step t = r at h
  cases h with
  | acted h => exact hw.becomes h
  | refused _ => exact hw
  | drew _ hq =>
      exact hw.drawn hq (Quota.alphabet_quota_draw _ _) fun ho => Quota.isOrdered_draw ho _
  | drewDue _ hq =>
      exact hw.drawn hq (Quota.alphabet_quota_drawDue _ _) fun ho => Quota.isOrdered_drawDue ho _

theorem run (hw : w.IsSound) (steps : List Step) : (w.run steps).IsSound := by
  induction steps generalizing w with
  | nil => exact hw
  | cons t steps ih => exact ih (hw.step t)

end IsSound

theorem isSound_empty (source : Source) : (empty source).IsSound where
  store := Store.isSound_empty
  bound _ hb := nomatch hb

/-- The workspace comes of a run of steps from the empty one. -/
def IsReachable (w : Workspace) : Prop := ∃ source steps, w = (empty source).run steps

theorem IsReachable.isSound (h : w.IsReachable) : w.IsSound := by
  obtain ⟨source, steps, rfl⟩ := h
  exact (isSound_empty source).run steps

namespace IsSound

theorem exists_display (hw : w.IsSound) : ∃ ts, w.display = .ok ts := by
  have hshown : ∀ b ∈ w.labels, ∃ t, (do
      let p ← w.store.partAt b.2
      return (b.1, p.text)) = (.ok t : Except Refusal (Text × Text)) := by
    intro b hb
    obtain ⟨x, hx, -⟩ := hw.store.exists_partAt (hw.bound b hb)
    exact ⟨_, bind_eq_ok_iff.2 ⟨x, hx, rfl⟩⟩
  obtain ⟨ts, hts⟩ := exists_forall₂ hshown
  exact ⟨ts, mapM_eq_ok_of_forall₂ hts⟩

theorem has_of_handle (hw : w.IsSound) {label : Text} {k : Handle} (hk : w.handle label = .ok k) :
    w.store.Has k := by
  have hends := ends_handle hw label
  rw [hk] at hends
  exact hends.2

theorem exists_copy (hw : w.IsSound) {source : Text} {k : Handle} (hk : w.handle source = .ok k)
    (label : Text) : ∃ w', w.step (.act (.copy label source)) = (.ok .done, w') := by
  obtain ⟨x, hx, hshows⟩ := hw.store.exists_partAt (hw.has_of_handle hk)
  have hpart : w.part source = .ok x := bind_eq_ok_iff.2 ⟨k, hk, hx⟩
  rw [Workspace.step, perform, hpart]
  cases x with
  | rule r => exact ⟨w.bindRule label r, rfl⟩
  | table t => exact ⟨w.bindTable label t, rfl⟩
  | policy p => exact ⟨w.bindPolicy label p, rfl⟩
  | range r | alphabet a => cases k <;> exact hshows.elim

theorem exists_feasible (hw : w.IsSound) {label : Text} {i : Nat}
    (hi : w.policyPlace label = .ok i) :
    ∃ p : Policy, w.store.Shows (.policy i) (.policy p) ∧ w.step (.act (.feasible label)) =
      (.ok (.prospect p.least p.most p.isFeasible), w) := by
  have hends := ends_policyPlace hw label
  rw [hi] at hends
  obtain ⟨p, hp, hshows⟩ := hw.store.exists_policyAt (List.getElem?_eq_getElem hends.2)
  have hpolicy : w.policy label = .ok p := bind_eq_ok_iff.2 ⟨i, hi, hp⟩
  refine ⟨p, hshows, ?_⟩
  rw [Workspace.step, perform, hpolicy]
  rfl

end IsSound

/-- Every workspace that can be reached is sound. The counts of its quotas are in order, its
tables map distinct alphabets to quotas over these alphabets, and its policies use tables that
it has. So each of its cells is read as what is in it, all that has a label can be displayed
and copied, and every policy has its totals. -/
theorem isSound_of_isReachable (h : w.IsReachable) :
    w.IsSound ∧
      (∀ k, w.store.Has k → ∃ x, w.store.partAt k = .ok x ∧ w.store.Shows k x) ∧
      (∃ ts, w.display = .ok ts) ∧
      (∀ label source k, w.handle source = .ok k →
        ∃ w', w.step (.act (.copy label source)) = (.ok .done, w')) ∧
      ∀ label i, w.policyPlace label = .ok i → ∃ p : Policy,
        w.store.Shows (.policy i) (.policy p) ∧ w.step (.act (.feasible label)) =
          (.ok (.prospect p.least p.most p.isFeasible), w) := by
  have hw := h.isSound
  exact ⟨hw, fun k hk => hw.store.exists_partAt hk, hw.exists_display,
    fun label source k hk => hw.exists_copy hk label, fun label i hi => hw.exists_feasible hi⟩

/-- A quota of two to three letters and one over the empty literal, in a table that a policy
uses, with a draw under the first and a draw under the second that fails. -/
def spentSteps : List Step :=
  [.act (.makeRule ['a'] (.written "2-3|xy".toList)),
    .act (.makeRule ['b'] (.between (.given (.literal [])) (.between 1 (some 1)))),
    .act (.makeTable ['t'] [['a'], ['b']]),
    .act (.share ['p'] 3 ['t']),
    .draw ['a'],
    .draw ['b']]

/-- The workspace after the two draws. -/
def spent : Workspace := (empty (.cycle #[1])).run spentSteps

theorem isSound_of_isReachable_spent :
    spent.IsReachable ∧
      spent.store.quotas = [⟨1, some 2, .literal ['x', 'y']⟩, ⟨0, some 0, .literal []⟩] ∧
      spent.IsSound ∧
      (∃ x, spent.store.partAt (.policy 0) = .ok x ∧ spent.store.Shows (.policy 0) x) ∧
      (∃ ts, spent.display = .ok ts) ∧
      (∃ w', spent.step (.act (.copy ['c'] ['t'])) = (.ok .done, w')) ∧
      ∃ p : Policy, spent.store.Shows (.policy 0) (.policy p) ∧
        spent.step (.act (.feasible ['p'])) =
          (.ok (.prospect p.least p.most p.isFeasible), spent) := by
  have h : spent.IsReachable := ⟨_, _, rfl⟩
  obtain ⟨hw, hread, hdisplay, hcopy, hfeasible⟩ := isSound_of_isReachable h
  exact ⟨h, by decide, hw, hread _ (by decide), hdisplay, hcopy _ _ (.table 0) rfl,
    hfeasible _ 0 rfl⟩

end Workspace

end PasswordPolicy
