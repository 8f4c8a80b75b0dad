import PasswordPolicy.Generation.Password
import PasswordPolicy.Proofs.Generation.Span
import PasswordPolicy.Proofs.Policy.Attribution

/-!
# The range of the draws that are due

A draw under a quota that is not exhausted comes to any letter of its alphabet. From
there the ranges of the longer runs follow: of a number of draws under one quota
(`spans_drawMany`), and of all the draws that are due under a list of quotas
(`spans_deal`). Neither fails as long as every quota of the list is sound: its counts are
in order, and nothing is due from an empty alphabet.

To which alphabet a character was drawn from is kept beside the characters, in a list of
alphabets of the same length. For the draws that are due the alphabets are the same
whatever the source (`dueAlphabets`).
-/

namespace PasswordPolicy

open Source

namespace Quota

/-- The quota with a number of units used up. -/
def spendMany (q : Quota) (n : Nat) : Quota :=
  { q with due := q.due - n, left := q.left.map (· - n) }

/-- The quota with all that was due drawn. -/
def settled (q : Quota) : Quota := q.spendMany q.due

/-- The counts are in order, and nothing is due from an empty alphabet. -/
structure IsSound (q : Quota) : Prop where
  ordered : ∀ m ∈ q.left, q.due ≤ m
  drawable : 0 < q.due → q.alphabet.isEmpty = false

@[simp] theorem alphabet_settled (q : Quota) : q.settled.alphabet = q.alphabet := rfl

theorem spendMany_zero (q : Quota) : q.spendMany 0 = q := by
  simp [spendMany]

theorem spendMany_spend (q : Quota) (n : Nat) : q.spend.spendMany n = q.spendMany (n + 1) := by
  simp [spendMany, spend, Function.comp_def, Nat.sub_sub, Nat.add_comm 1]

theorem isActive_iff {q : Quota} : q.isActive = true ↔ ∀ m ∈ q.left, 0 < m := by
  cases h : q.left with
  | none => simp [isActive, h]
  | some m => simp [isActive, h, Nat.pos_iff_ne_zero]

theorem not_isActive_iff {q : Quota} : ¬q.isActive = true ↔ q.left = some 0 := by
  simp [isActive]

theorem drawDue_of_due_eq_zero {q : Quota} (h : q.due = 0) (s : Source) :
    q.drawDue s = ⟨.ok [], q, s⟩ := by
  rw [drawDue, h, drawMany]

/-- A draw comes to any letter of the alphabet. -/
theorem spans_draw {q : Quota} (ha : q.isActive = true) (he : q.alphabet.isEmpty = false) :
    Spans q.draw (fun c s => ⟨.ok (some c), q.spend, s⟩) 1
      (fun c => c ∈ q.alphabet.letters) := by
  have hne : q.alphabet.letters ≠ [] := by simpa [Alphabet.isEmpty] using he
  refine (spans_pick? hne).transfer ?_
  intro c _ s t hpick
  simp [draw, ha, hpick]

/-- A number of draws comes to any run of so many letters of the alphabet. -/
theorem spans_drawMany (n : Nat) (q : Quota) (hn : ∀ m ∈ q.left, n ≤ m)
    (he : 0 < n → q.alphabet.isEmpty = false) :
    Spans (drawMany n q) (fun cs s => ⟨.ok cs, q.spendMany n, s⟩) n
      (fun cs => Belong cs (List.replicate n q.alphabet)) := by
  induction n generalizing q with
  | zero =>
      refine Spans.pure (x := []) ?_ ?_
      · intro s
        rw [drawMany, spendMany_zero]
      · intro cs
        exact List.forall₂_nil_right_iff
  | succ n ih =>
      have hactive : q.isActive = true :=
        isActive_iff.2 fun m hm => Nat.lt_of_lt_of_le n.succ_pos (hn m hm)
      have hletters : q.alphabet.isEmpty = false := he n.succ_pos
      have hleft : ∀ m ∈ q.spend.left, n ≤ m := by
        intro m hm
        obtain ⟨l, hl, rfl⟩ := Option.map_eq_some_iff.1 hm
        exact Nat.le_pred_of_lt (hn l hl)
      have hrest := ih q.spend hleft fun _ => hletters
      rw [spendMany_spend, alphabet_spend] at hrest
      have hmore : ∀ c ∈ q.alphabet.letters, Spans
          (fun s => let ds := drawMany n q.spend s
            (⟨ds.result.map (c :: ·), ds.quota, ds.source⟩ : Drawing (List Char)))
          (fun cs s => ⟨.ok cs, q.spendMany (n + 1), s⟩) n
          (fun cs => ∃ ds, Belong ds (List.replicate n q.alphabet) ∧ cs = c :: ds) := by
        intro c _
        refine hrest.map ?_
        intro ds _ s t hds
        rw [hds]
        rfl
      refine ((spans_draw hactive hletters).bind hmore ?_).congr (Nat.add_comm 1 n) ?_
      · intro c _ s t hc
        rw [drawMany, hc]
      · intro cs
        rw [List.replicate_succ, Belong, List.forall₂_cons_right_iff]
        simp only [exists_and_left]

/-- The draws that are due come to any run of letters with as many from the alphabet as
are due. -/
theorem spans_drawDue {q : Quota} (h : q.IsSound) :
    Spans q.drawDue (fun cs s => ⟨.ok cs, q.settled, s⟩) q.due
      (fun cs => Belong cs (List.replicate q.due q.alphabet)) :=
  spans_drawMany q.due q h.ordered h.drawable

end Quota

/-- The alphabets of the characters that are due, one quota after the other. -/
def dueAlphabets (qs : List Quota) : List Alphabet :=
  qs.flatMap fun q => List.replicate q.due q.alphabet

/-- The quotas under which characters may be drawn when all that is due has been. -/
def settledPool (qs : List Quota) : List Quota :=
  (qs.map Quota.settled).filter Quota.canFill

theorem settledPool_cons (q : Quota) (qs : List Quota) :
    settledPool (q :: qs) =
      if q.settled.canFill then q.settled :: settledPool qs else settledPool qs := by
  rw [settledPool, List.map_cons, List.filter_cons]
  rfl

theorem dueAlphabets_cons (q : Quota) (qs : List Quota) :
    dueAlphabets (q :: qs) = List.replicate q.due q.alphabet ++ dueAlphabets qs := rfl

theorem length_dueAlphabets (qs : List Quota) :
    (dueAlphabets qs).length = (qs.map Quota.due).sum := by
  simp [dueAlphabets, List.length_flatMap]

/-- The draws that are due under a list of quotas come to any text that has the letters
due under each quota in the order of the quotas. -/
theorem spans_deal {qs : List Quota} (h : ∀ q ∈ qs, q.IsSound) :
    Spans (deal qs) (fun cs s => .ok ⟨cs, settledPool qs, s⟩) (qs.map Quota.due).sum
      (fun cs => Belong cs (dueAlphabets qs)) := by
  induction qs with
  | nil =>
      refine Spans.pure (x := []) (fun _ => rfl) ?_
      intro cs
      exact List.forall₂_nil_right_iff
  | cons q qs ih =>
      have hq : q.IsSound := h q (List.mem_cons_self ..)
      have hqs := ih fun r hr => h r (List.mem_cons_of_mem q hr)
      have hmore : ∀ cs, Belong cs (List.replicate q.due q.alphabet) → Spans
          (fun s => do
            let rest ← deal qs s
            return (⟨cs ++ rest.letters,
              if q.settled.canFill then q.settled :: rest.pool else rest.pool,
              rest.source⟩ : Deal))
          (fun cs s => .ok ⟨cs, settledPool (q :: qs), s⟩) (qs.map Quota.due).sum
          (fun w => ∃ ds, Belong ds (dueAlphabets qs) ∧ w = cs ++ ds) := by
        intro cs _
        refine hqs.map ?_
        intro ds _ s t hds
        rw [hds, settledPool_cons]
        rfl
      refine ((Quota.spans_drawDue hq).bind hmore ?_).congr ?_ ?_
      · intro cs _ s t hcs
        rw [deal, hcs]
        rfl
      · rw [List.map_cons, List.sum_cons]
      · intro cs
        rw [dueAlphabets_cons]
        exact belong_append_iff.symm

end PasswordPolicy
