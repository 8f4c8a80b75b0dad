import PasswordPolicy.Proofs.Generation.Draws
import PasswordPolicy.Proofs.Workspace.Soundness

/-!
# What a step that fails leaves behind

A step that is refused for a fault in what was asked for leaves the workspace as it was. The
one other failure is a draw under a quota that has something left but draws from the empty
literal (`Quota.IsBarren`). It comes after one unit of the quota is used up, and leaves all
else as it was (`charged`).
-/

namespace PasswordPolicy

namespace Quota

variable {q : Quota}

/-- Something may still be drawn under the quota, but there is nothing to draw. -/
def IsBarren (q : Quota) : Prop := q.alphabet = .literal [] ∧ q.left ≠ some 0

theorem isBarren_iff : q.IsBarren ↔ q.isActive = true ∧ q.alphabet.isEmpty = true := by
  rw [IsBarren, Alphabet.isEmpty_iff, isActive, bne_iff_ne, and_comm]

theorem draw_of_isBarren (h : q.IsBarren) (s : Source) :
    q.draw s = ⟨.error .nothingToDraw, q.spend, s⟩ := by
  obtain ⟨hactive, hempty⟩ := isBarren_iff.1 h
  exact draw_of_isEmpty hactive hempty s

/-- The first of the draws that are due fails, and ends them. -/
theorem drawDue_of_isBarren (h : q.IsBarren) (hdue : 0 < q.due) (s : Source) :
    q.drawDue s = ⟨.error .nothingToDraw, q.spend, s⟩ := by
  obtain ⟨n, hn⟩ := Nat.exists_eq_succ_of_ne_zero hdue.ne'
  rw [drawDue, hn, drawMany, draw_of_isBarren h]

theorem exists_result_draw (h : ¬ q.IsBarren) (s : Source) : ∃ c, (q.draw s).result = .ok c := by
  cases hactive : q.isActive with
  | false => exact ⟨none, by rw [draw_of_not_isActive hactive]⟩
  | true =>
      have hletters : q.alphabet.isEmpty = false :=
        Bool.eq_false_iff.2 fun hempty => h (isBarren_iff.2 ⟨hactive, hempty⟩)
      obtain ⟨c, -, hc⟩ := (spans_draw hactive hletters).sound s
      exact ⟨some c, by rw [hc]⟩

/-- A quota whose counts are in order and that is due has something left. -/
theorem isSound_of_not_isBarren (ho : q.IsOrdered) (h : 0 < q.due → ¬ q.IsBarren) :
    q.IsSound where
  ordered := ho
  drawable hdue := by
    have hactive : q.isActive = true :=
      isActive_iff.2 fun m hm => Nat.lt_of_lt_of_le hdue (ho m hm)
    exact Bool.eq_false_iff.2 fun hempty => h hdue (isBarren_iff.2 ⟨hactive, hempty⟩)

theorem exists_result_drawDue (ho : q.IsOrdered) (h : 0 < q.due → ¬ q.IsBarren) (s : Source) :
    ∃ cs, (q.drawDue s).result = .ok cs := by
  obtain ⟨cs, -, hcs⟩ := (spans_drawDue (isSound_of_not_isBarren ho h)).sound s
  exact ⟨cs, by rw [hcs]⟩

end Quota

theorem Store.setQuota_self {s : Store} {i : Nat} {q : Quota} (hq : s.quotas[i]? = some q) :
    s.setQuota i q = s := by
  obtain ⟨hi, rfl⟩ := List.getElem?_eq_some_iff.1 hq
  rw [setQuota, List.set_getElem_self]

namespace Workspace

variable {w : Workspace} {t : Step} {i : Nat} {q : Quota}

/-- The workspace with one unit of the quota at a place used up. -/
def charged (w : Workspace) (i : Nat) (q : Quota) : Workspace :=
  { w with store := w.store.setQuota i ⟨q.due - 1, q.left.map (· - 1), q.alphabet⟩ }

/-- The step begins to draw under the quota at a place. -/
def DrawsUnder (w : Workspace) (t : Step) (i : Nat) (q : Quota) : Prop :=
  ∃ label, (t = .draw label ∨ t = .drawDue label ∧ 0 < q.due) ∧ w.quotaPlace label = .ok i ∧
    w.store.quotas[i]? = some q

theorem step_of_isBarren (ht : w.DrawsUnder t i q) (hq : q.IsBarren) :
    w.step t = (.error (.faulty .nothingToDraw), w.charged i q) := by
  obtain ⟨label, rfl | ⟨rfl, hdue⟩, hplace, hcell⟩ := ht
  · rw [step, drawUnder_of_place hplace hcell, Quota.draw_of_isBarren hq]
    rfl
  · rw [step, drawUnder_of_place hplace hcell, Quota.drawDue_of_isBarren hq hdue]
    rfl

theorem step_drawDue_of_due_eq_zero {label : Text} (hplace : w.quotaPlace label = .ok i)
    (hcell : w.store.quotas[i]? = some q) (hdue : q.due = 0) :
    w.step (.drawDue label) = (.ok (.letters []), w) := by
  rw [step, drawUnder_of_place hplace hcell, Quota.drawDue_of_due_eq_zero hdue, drawn,
    Store.setQuota_self hcell]
  rfl

/-- A step either succeeds, or is refused and changes nothing, or fails at its first draw. -/
theorem step_cases (hw : w.IsSound) (t : Step) :
    (∃ answer w', w.step t = (.ok answer, w')) ∨
      (∃ e, e.IsOfRequest ∧ w.step t = (.error e, w)) ∨
      ∃ i q, w.DrawsUnder t i q ∧ q.IsBarren := by
  have h := goes_step hw t
  generalize w.step t = r at h
  cases h with
  | @acted a answer w' _ => exact .inl ⟨answer, w', rfl⟩
  | @refused _ e he => exact .inr (.inl ⟨e, he, rfl⟩)
  | @drew label i q hplace hcell =>
      by_cases hq : q.IsBarren
      · exact .inr (.inr ⟨i, q, ⟨label, .inl rfl, hplace, hcell⟩, hq⟩)
      · obtain ⟨c, hc⟩ := Quota.exists_result_draw hq w.source
        rw [hc]
        exact .inl ⟨_, _, rfl⟩
  | @drewDue label i q hplace hcell =>
      by_cases hq : 0 < q.due ∧ q.IsBarren
      · exact .inr (.inr ⟨i, q, ⟨label, .inr ⟨rfl, hq.1⟩, hplace, hcell⟩, hq.2⟩)
      · have ho := hw.store.ordered q (List.mem_of_getElem? hcell)
        obtain ⟨cs, hcs⟩ := Quota.exists_result_drawDue ho (not_and.1 hq) w.source
        rw [hcs]
        exact .inl ⟨_, _, rfl⟩

/-- A step that fails leaves the workspace as it was, source and all, unless it begins to draw
under a quota that is barren. Every step that does so fails there, after using up one unit of
the quota and nothing else. To draw what is due where nothing is due changes nothing and does
not fail. -/
theorem fails_atomically_of_isReachable (h : w.IsReachable) :
    (∀ t e w', w.step t = (.error e, w') →
      (e.IsOfRequest ∧ w' = w) ∨
        ∃ i q, w.DrawsUnder t i q ∧ q.IsBarren ∧ e = .faulty .nothingToDraw ∧
          w' = w.charged i q) ∧
      (∀ t i q, w.DrawsUnder t i q → q.IsBarren →
        w.step t = (.error (.faulty .nothingToDraw), w.charged i q)) ∧
      ∀ label i q, w.quotaPlace label = .ok i → w.store.quotas[i]? = some q → q.due = 0 →
        w.step (.drawDue label) = (.ok (.letters []), w) := by
  refine ⟨fun t e w' hfail => ?_, fun t i q ht hq => step_of_isBarren ht hq,
    fun label i q hplace hcell hdue => step_drawDue_of_due_eq_zero hplace hcell hdue⟩
  rcases step_cases h.isSound t with ⟨answer, v, hok⟩ | ⟨d, hd, hrefused⟩ | ⟨i, q, ht, hq⟩
  · rw [hok] at hfail
    cases hfail
  · rw [hrefused] at hfail
    cases hfail
    exact .inl ⟨hd, rfl⟩
  · rw [step_of_isBarren ht hq] at hfail
    cases hfail
    exact .inr ⟨i, q, ht, hq, rfl, rfl⟩

/-- A quota of one to two letters over the empty literal. -/
def barrenSteps : List Step :=
  [.act (.makeRule ['b'] (.between (.given (.literal [])) (.between 1 (some 2))))]

/-- The workspace with that quota, before and after the draws that are due. -/
def barren : Workspace := (empty (.cycle #[1])).run barrenSteps

def drained : Workspace := (empty (.cycle #[1])).run (barrenSteps ++ [.drawDue ['b']])

theorem fails_atomically_of_isReachable_barren :
    barren.IsReachable ∧ drained.IsReachable ∧
      barren.step (.drawDue ['b']) =
        (.error (.faulty .nothingToDraw), barren.charged 0 ⟨1, some 2, .literal []⟩) ∧
      (barren.charged 0 ⟨1, some 2, .literal []⟩).store.quotas = [⟨0, some 1, .literal []⟩] ∧
      drained.step (.drawDue ['b']) = (.ok (.letters []), drained) := by
  have hbarren : barren.IsReachable := ⟨_, _, rfl⟩
  have hdrained : drained.IsReachable := ⟨_, _, rfl⟩
  obtain ⟨-, hfails, -⟩ := fails_atomically_of_isReachable hbarren
  obtain ⟨-, -, hnone⟩ := fails_atomically_of_isReachable hdrained
  refine ⟨hbarren, hdrained, hfails _ 0 ⟨1, some 2, .literal []⟩ ?_ ?_, rfl, ?_⟩
  · exact ⟨['b'], .inr ⟨rfl, Nat.zero_lt_one⟩, rfl, rfl⟩
  · exact ⟨rfl, nofun⟩
  · exact hnone ['b'] 0 ⟨0, some 1, .literal []⟩ rfl rfl rfl

end Workspace

end PasswordPolicy
