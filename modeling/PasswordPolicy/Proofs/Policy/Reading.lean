import PasswordPolicy.Proofs.Policy.Division
import PasswordPolicy.Proofs.Rule.Pushing
import PasswordPolicy.Proofs.Rule.RoundTrip

/-!
# What a text is read as

Where every rule has its bar, the division of a text cannot fail, and the rules are read in
their order (`read_eq_map_mapM`). So a text is read as a policy when its first piece is the
length and its later pieces stand for the rules, one a piece (`read_eq_ok_iff`). Pushing the
rules changes their order only where an alphabet comes again.
-/

namespace PasswordPolicy

open Text

namespace Policy

variable {u t : Text} {us : List Text} {r : Rule} {rs : List Rule}

/-- Pieces stand for rules, one a piece, and nothing need follow the last separator. -/
inductive StandFor : List Text → List Rule → Prop
  | nil : StandFor [] []
  | separator : StandFor [[]] []
  | cons {u : Text} {r : Rule} {us : List Text} {rs : List Rule} (h : Rule.read u = .ok r)
      (hs : StandFor us rs) : StandFor (u :: us) (r :: rs)

theorem bar_mem_of_forall₂ (h : List.Forall₂ (fun u r => Rule.read u = .ok r) us rs) :
    ∀ u ∈ us, '|' ∈ u := by
  induction h with
  | nil => simp
  | cons hr _ ih =>
      obtain ⟨i, rfl, -⟩ := Rule.exists_of_read hr
      exact List.forall_mem_cons.2 ⟨by simp, ih⟩

theorem standFor_iff_forall₂ :
    StandFor us rs ↔ List.Forall₂ (fun u r => Rule.read u = .ok r) (rulePieces us) rs := by
  constructor
  · intro h
    induction h with
    | nil => exact .nil
    | separator => exact .nil
    | cons hr _ ih =>
        rw [rulePieces_cons]
        · exact .cons hr ih
        · rintro rfl
          cases hr
  · intro h
    induction us generalizing rs with
    | nil =>
        cases h
        exact .nil
    | cons u us ih =>
        by_cases hend : u = [] → us ≠ []
        · rw [rulePieces_cons hend] at h
          cases h with
          | cons hr hrs => exact .cons hr (ih hrs)
        · obtain ⟨rfl, rfl⟩ : u = [] ∧ us = [] := by simpa using hend
          cases h
          exact .separator

/-- Where every rule has its bar the division succeeds, and what it gives is read as the pieces
of the rules are. -/
theorem exists_divide_of_bar (h : pieces t = u :: us) (hbars : ∀ g ∈ rulePieces us, '|' ∈ g) :
    ∃ d, divide t = .ok d ∧ d.length = u ∧
      d.rules.mapM (fun x => Rule.readParts x.1 x.2) = (rulePieces us).mapM Rule.read := by
  obtain ⟨d, hd⟩ := (exists_divide_iff h).2 hbars
  obtain ⟨hlength, hrules⟩ := (divide_eq_ok_iff h).1 hd
  refine ⟨d, hd, hlength, (mapM_congr_of_forall₂ (hrules.imp ?_)).symm⟩
  rintro g x ⟨rfl, hbar⟩
  exact Rule.read_append hbar

/-- Where every rule has its bar, the rules are read in their order. -/
theorem read_eq_map_mapM {n : Nat} (h : pieces t = u :: us)
    (hbars : ∀ g ∈ rulePieces us, '|' ∈ g) (hn : Numeral.read? u = some n) :
    read t = ((rulePieces us).mapM Rule.read).map fun rs => ⟨n, .ofList rs⟩ := by
  obtain ⟨d, hd, rfl, hrules⟩ := exists_divide_of_bar h hbars
  have hpolicy : read t = d.policy := by
    rw [read, hd]
    rfl
  rw [hpolicy, Division.policy, hn, ← hrules]
  cases d.rules.mapM fun x => Rule.readParts x.1 x.2 with
  | error e => rfl
  | ok rs => rfl

theorem read_eq_malformedLength (h : pieces t = u :: us)
    (hbars : ∀ g ∈ rulePieces us, '|' ∈ g) (hn : Numeral.read? u = none) :
    read t = .error (.malformedLength u) := by
  obtain ⟨d, hd, rfl, -⟩ := exists_divide_of_bar h hbars
  rw [read, hd]
  change d.policy = _
  rw [Division.policy, hn]

theorem read_eq_ok_iff {q : Policy} (h : pieces t = u :: us) :
    read t = .ok q ↔ Numeral.read? u = some q.length ∧
      ∃ rs, StandFor us rs ∧ q.table = .ofList rs := by
  constructor
  · intro hq
    obtain ⟨d, hd, -⟩ := bind_eq_ok_iff.1 hq
    have hbars := (exists_divide_iff h).1 ⟨d, hd⟩
    cases hn : Numeral.read? u with
    | none =>
        rw [read_eq_malformedLength h hbars hn] at hq
        cases hq
    | some n =>
        rw [read_eq_map_mapM h hbars hn, map_eq_ok_iff] at hq
        obtain ⟨rs, hrs, rfl⟩ := hq
        exact ⟨rfl, rs, standFor_iff_forall₂.2 (mapM_eq_ok_iff.1 hrs), rfl⟩
  · rintro ⟨hn, rs, hrs, hq⟩
    have hforall := standFor_iff_forall₂.1 hrs
    rw [read_eq_map_mapM h (bar_mem_of_forall₂ hforall) hn, mapM_eq_ok_of_forall₂ hforall]
    exact congrArg Except.ok (Policy.ext_parts rfl hq.symm)

theorem exists_mem_of_standFor (h : StandFor us rs) (hr : r ∈ rs) :
    ∃ u ∈ us, Rule.read u = .ok r := by
  induction h with
  | nil => simp at hr
  | separator => simp at hr
  | @cons u s us rs h _ ih =>
      rcases List.mem_cons.1 hr with rfl | hr
      · exact ⟨u, by simp, h⟩
      · obtain ⟨v, hv, hread⟩ := ih hr
        exact ⟨v, by simp [hv], hread⟩

/-- The rules of a policy that was read are those that the later pieces stand for. -/
theorem exists_standFor_of_read {q : Policy} (h : read t = .ok q) :
    ∃ rs, StandFor (pieces t).tail rs ∧ q.table = .ofList rs := by
  obtain ⟨u, us, hu⟩ := List.exists_cons_of_ne_nil (pieces_ne_nil t)
  rw [hu]
  exact ((read_eq_ok_iff hu).1 h).2

/-- Each rule of a policy that was read is what a piece of its own stands for. -/
theorem exists_piece_of_read {q : Policy} (h : read t = .ok q) (hr : r ∈ q.rules) :
    ∃ u ∈ (pieces t).tail, Rule.read u = .ok r := by
  obtain ⟨rs, hrs, hq⟩ := exists_standFor_of_read h
  rw [rules, hq] at hr
  exact exists_mem_of_standFor hrs (RuleTable.mem_of_mem_rules_ofList hr)

end Policy

end PasswordPolicy
