import PasswordPolicy.Proofs.Generation.Draws

/-!
# The ledger of a quota

Characters are drawn under a quota in two ways, one at a time or all that are due. Whatever the
order in which this happens and whatever the sources, the counts that are left depend only on
how many characters have been delivered: so many fewer are due, down to none, and so many fewer
are left (`Ledger`). One call keeps the ledger (`Ledger.meet`), so a run of calls does
(`Ledger.meetAll`), and neither ever fails over an alphabet with letters.

To draw all that is due is to draw as long as something is due, passing over the draws that give
nothing (`DrawsWhileDue`). Such a loop does not end if nothing is left before all that is due
has been drawn. It ends exactly where `Quota.drawDue` gives a result, and with the same one
(`drawsWhileDue_iff`).
-/

namespace PasswordPolicy

namespace Quota

variable {q q' : Quota} {s s' : Source} {cs ds : List Char}

/-- Characters are drawn as long as some are due. A draw that gives none is passed over. -/
inductive DrawsWhileDue : Quota → Source → List Char → Quota → Source → Prop
  | stop {q : Quota} {s : Source} (h : q.isDue = false) : DrawsWhileDue q s [] q s
  | draw {q q' : Quota} {s s' : Source} {c : Option Char} {cs : List Char}
      (h : q.isDue = true) (hc : (q.draw s).result = .ok c)
      (hrest : DrawsWhileDue (q.draw s).quota (q.draw s).source cs q' s') :
      DrawsWhileDue q s (c.toList ++ cs) q' s'

/-- A draw gives nothing when the quota is exhausted, and otherwise it uses up a unit. -/
theorem draw_cases (q : Quota) (s : Source) :
    (q.isActive = false ∧ q.draw s = ⟨.ok none, q, s⟩) ∨
      (∃ c s', q.draw s = ⟨.ok (some c), q.spend, s'⟩) ∨
        q.draw s = ⟨.error .nothingToDraw, q.spend, s⟩ := by
  cases hactive : q.isActive with
  | false => exact .inl ⟨rfl, draw_of_not_isActive hactive s⟩
  | true =>
      rw [draw, hactive, if_pos rfl]
      cases s.pick? q.alphabet.letters with
      | none => exact .inr (.inr rfl)
      | some x => exact .inr (.inl ⟨x.1, x.2, rfl⟩)

theorem isActive_of_draw {c : Char} (h : q.draw s = ⟨.ok (some c), q', s'⟩) :
    q.isActive = true := by
  by_contra hactive
  rw [draw_of_not_isActive (by simpa using hactive)] at h
  cases h

theorem drawDue_of_drawsWhileDue (h : DrawsWhileDue q s cs q' s') :
    q.drawDue s = ⟨.ok cs, q', s'⟩ := by
  induction h with
  | @stop q s h =>
      exact drawDue_of_due_eq_zero (by simpa [isDue] using h) s
  | @draw q q' s s' c cs h hc hrest ih =>
      obtain ⟨n, hn⟩ : ∃ n, q.due = n + 1 := Nat.exists_eq_add_one_of_ne_zero
        (Nat.pos_iff_ne_zero.1 (of_decide_eq_true h))
      rcases draw_cases q s with ⟨-, hdraw⟩ | ⟨d, t, hdraw⟩ | hdraw
      · rw [hdraw] at hc ih
        obtain rfl : none = c := Except.ok.inj hc
        exact ih
      · rw [hdraw] at hc ih
        obtain rfl : some d = c := Except.ok.inj hc
        have hspend : q.spend.due = n := by rw [due_spend, hn, Nat.add_sub_cancel]
        rw [drawDue, hspend] at ih
        rw [drawDue, hn, drawMany, hdraw, ih]
        rfl
      · rw [hdraw] at hc
        cases hc

theorem drawsWhileDue_of_drawMany (n : Nat) (hn : q.due = n)
    (h : drawMany n q s = ⟨.ok cs, q', s'⟩) : DrawsWhileDue q s cs q' s' := by
  induction n generalizing q s cs with
  | zero =>
      cases h
      exact .stop (by simp [isDue, hn])
  | succ n ih =>
      have hdue : q.isDue = true := by simp [isDue, hn]
      have hspend : q.spend.due = n := by rw [due_spend, hn, Nat.add_sub_cancel]
      rw [drawMany] at h
      rcases draw_cases q s with ⟨-, hdraw⟩ | ⟨c, t, hdraw⟩ | hdraw
      · rw [hdraw] at h
        cases h
      · generalize hrest : drawMany n q.spend t = d at h
        obtain ⟨r, p, u⟩ := d
        rw [hdraw, hrest] at h
        cases r with
        | error e => cases h
        | ok ds =>
            cases h
            refine .draw (c := some c) hdue (by rw [hdraw]) ?_
            rw [hdraw]
            exact ih hspend hrest
      · rw [hdraw] at h
        cases h

/-- The loop ends where the draws that are due give a result, and with that result. -/
theorem drawsWhileDue_iff : DrawsWhileDue q s cs q' s' ↔ q.drawDue s = ⟨.ok cs, q', s'⟩ :=
  ⟨drawDue_of_drawsWhileDue, drawsWhileDue_of_drawMany q.due rfl⟩

/-- The two ways to draw under a quota. -/
inductive Demand
  | one
  | due

/-- What a demand gives, as a list of characters. -/
def meet (q : Quota) : Demand → Source → Drawing (List Char)
  | .one, s => ⟨(q.draw s).result.map Option.toList, (q.draw s).quota, (q.draw s).source⟩
  | .due, s => q.drawDue s

/-- The characters that a run of demands gives, each from a source of its own, and what is left of
the quota. -/
def meetAll (q : Quota) : List (Demand × Source) → Except Fault (List Char × Quota)
  | [] => .ok ([], q)
  | (d, s) :: demands => do
    let cs ← (q.meet d s).result
    let (ds, q') ← (q.meet d s).quota.meetAll demands
    return (cs ++ ds, q')

theorem mem_letters_of_belong_replicate {a : Alphabet} {n : Nat}
    (h : Belong cs (List.replicate n a)) : ∀ c ∈ cs, c ∈ a.letters := by
  induction n generalizing cs with
  | zero =>
      rw [List.forall₂_nil_right_iff.1 h]
      exact List.forall_mem_nil _
  | succ n ih =>
      obtain ⟨c, ds, hc, hds, rfl⟩ := List.forall₂_cons_right_iff.1 h
      exact List.forall_mem_cons.2 ⟨hc, ih hds⟩

/-- What is left of a quota when characters have been delivered under it. -/
structure Ledger (q : Quota) (cs : List Char) (q' : Quota) : Prop where
  due : q'.due = q.due - cs.length
  left : q'.left = q.left.map (· - cs.length)
  alphabet : q'.alphabet = q.alphabet
  /-- No more was delivered than was left. -/
  within : ∀ m ∈ q.left, cs.length ≤ m
  letters : ∀ c ∈ cs, c ∈ q.alphabet.letters

namespace Ledger

theorem start (q : Quota) : q.Ledger [] q := by
  constructor <;> simp

/-- Something may be drawn until as much has been delivered as was left. -/
theorem isActive_iff (h : q.Ledger cs q') :
    q'.isActive = true ↔ ∀ m ∈ q.left, cs.length < m := by
  rw [Quota.isActive_iff, h.left]
  cases q.left with
  | none => simp
  | some m => simp only [Option.map_some, Option.mem_some_iff, forall_eq', Nat.sub_pos_iff_lt]

theorem isSound (h : q.Ledger cs q') (ho : ∀ m ∈ q.left, q.due ≤ m)
    (he : q.alphabet.isEmpty = false) : q'.IsSound where
  ordered := by
    intro l hl
    rw [h.left] at hl
    obtain ⟨m, hm, rfl⟩ := Option.map_eq_some_iff.1 hl
    rw [h.due]
    exact Nat.sub_le_sub_right (ho m hm) cs.length
  drawable _ := by rw [h.alphabet, he]

/-- More characters are delivered. -/
theorem append (h : q.Ledger cs q') {n : Nat} (hn : ds.length = n)
    (hleft : ∀ m ∈ q'.left, ds.length ≤ m) (hds : ∀ c ∈ ds, c ∈ q'.alphabet.letters) :
    q.Ledger (cs ++ ds) (q'.spendMany n) where
  due := by
    rw [spendMany, h.due, List.length_append, hn, Nat.sub_sub]
  left := by
    rw [spendMany, h.left, Option.map_map, List.length_append, hn]
    simp [Function.comp_def, Nat.sub_sub]
  alphabet := h.alphabet
  within := by
    intro m hm
    have hcs := h.within m hm
    have hds := hleft (m - cs.length) (h.left ▸ Option.mem_map_of_mem _ hm)
    rw [List.length_append]
    omega
  letters := by
    intro c hc
    rcases List.mem_append.1 hc with hc | hc
    · exact h.letters c hc
    · exact h.alphabet ▸ hds c hc

/-- A draw gives a letter as long as less has been delivered than was left. -/
theorem exists_draw (h : q.Ledger cs q') (he : q.alphabet.isEmpty = false)
    (hleft : ∀ m ∈ q.left, cs.length < m) (s : Source) :
    ∃ c ∈ q.alphabet.letters, q'.draw s = ⟨.ok (some c), q'.spend, s.advance⟩ := by
  have hletters : q'.alphabet.isEmpty = false := by rw [h.alphabet, he]
  obtain ⟨c, hc, hdraw⟩ := (spans_draw (h.isActive_iff.2 hleft) hletters).sound s
  exact ⟨c, h.alphabet ▸ hc, hdraw⟩

/-- When all that was left has been delivered, a draw gives nothing and changes nothing. -/
theorem draw_eq_none (h : q.Ledger cs q') {m : Nat} (hm : m ∈ q.left) (hle : m ≤ cs.length)
    (s : Source) : q'.draw s = ⟨.ok none, q', s⟩ := by
  refine draw_of_not_isActive (Bool.eq_false_iff.2 fun hactive => ?_) s
  exact Nat.not_lt.2 hle (h.isActive_iff.1 hactive m hm)

/-- The draws that are due give as many letters, and then nothing is due. -/
theorem exists_drawDue (h : q.Ledger cs q') (ho : ∀ m ∈ q.left, q.due ≤ m)
    (he : q.alphabet.isEmpty = false) (s : Source) :
    ∃ ds, ds.length = q'.due ∧ (∀ c ∈ ds, c ∈ q.alphabet.letters) ∧
      q'.drawDue s = ⟨.ok ds, q'.settled, s.skip q'.due⟩ := by
  obtain ⟨ds, hds, hdraw⟩ := (spans_drawDue (h.isSound ho he)).sound s
  refine ⟨ds, ?_, ?_, hdraw⟩
  · rw [hds.length_eq, List.length_replicate]
  · rw [← h.alphabet]
    exact mem_letters_of_belong_replicate hds

/-- A demand keeps the ledger. -/
theorem meet (h : q.Ledger cs q') (ho : ∀ m ∈ q.left, q.due ≤ m)
    (he : q.alphabet.isEmpty = false) (d : Demand) (s : Source) :
    ∃ ds q'' s', q'.meet d s = ⟨.ok ds, q'', s'⟩ ∧ q.Ledger (cs ++ ds) q'' := by
  cases d with
  | one =>
      by_cases hleft : ∀ m ∈ q.left, cs.length < m
      · obtain ⟨c, hc, hdraw⟩ := h.exists_draw he hleft s
        refine ⟨[c], q'.spend, s.advance, by rw [Quota.meet, hdraw]; rfl, ?_⟩
        rw [← spendMany_zero q'.spend, spendMany_spend]
        refine h.append rfl ?_ ?_
        · intro l hl
          exact Quota.isActive_iff.1 (h.isActive_iff.2 hleft) l hl
        · simpa [h.alphabet] using hc
      · simp only [not_forall, not_lt] at hleft
        obtain ⟨m, hm, hle⟩ := hleft
        refine ⟨[], q', s, by rw [Quota.meet, h.draw_eq_none hm hle]; rfl, ?_⟩
        rwa [List.append_nil]
  | due =>
      obtain ⟨ds, hlength, hds, hdraw⟩ := h.exists_drawDue ho he s
      refine ⟨ds, q'.settled, _, hdraw, h.append hlength ?_ ?_⟩
      · rw [hlength]
        exact (h.isSound ho he).ordered
      · rwa [h.alphabet]

/-- A run of demands keeps the ledger. -/
theorem meetAll (h : q.Ledger cs q') (ho : ∀ m ∈ q.left, q.due ≤ m)
    (he : q.alphabet.isEmpty = false) (demands : List (Demand × Source)) :
    ∃ ds q'', q'.meetAll demands = .ok (ds, q'') ∧ q.Ledger (cs ++ ds) q'' := by
  induction demands generalizing cs q' with
  | nil => exact ⟨[], q', rfl, by rwa [List.append_nil]⟩
  | cons x demands ih =>
      obtain ⟨cs', p, t, hmeet, hledger⟩ := h.meet ho he x.1 x.2
      obtain ⟨ds, q'', hrest, hend⟩ := ih hledger
      refine ⟨cs' ++ ds, q'', ?_, by rwa [← List.append_assoc]⟩
      rw [Quota.meetAll, hmeet, bind_eq_ok_iff]
      exact ⟨cs', rfl, bind_eq_ok_iff.2 ⟨_, hrest, rfl⟩⟩

end Ledger

/-- Whatever is demanded under a quota whose counts are in order, over an alphabet with letters,
and from whatever sources, all of it is met, and what is left of the quota follows from how much
was delivered, which is never more than was left. After that a single draw gives a letter unless
all that was left has been delivered, and then it gives nothing and makes no call. Drawing as
long as something is due comes to an end, with as many letters as were due and as many calls. -/
theorem meets_by_ledger (ho : ∀ m ∈ q.left, q.due ≤ m) (he : q.alphabet.isEmpty = false)
    (demands : List (Demand × Source)) :
    ∃ cs q', q.meetAll demands = .ok (cs, q') ∧ q.Ledger cs q' ∧
      (∀ s, (∃ c ∈ q.alphabet.letters, q'.draw s = ⟨.ok (some c), q'.spend, s.advance⟩) ↔
        ∀ m ∈ q.left, cs.length < m) ∧
      (∀ s, q'.draw s = ⟨.ok none, q', s⟩ ↔ ∃ m ∈ q.left, m ≤ cs.length) ∧
      ∀ s, ∃ ds, ds.length = q'.due ∧ (∀ c ∈ ds, c ∈ q.alphabet.letters) ∧
        q'.drawDue s = ⟨.ok ds, q'.settled, s.skip q'.due⟩ ∧
        DrawsWhileDue q' s ds q'.settled (s.skip q'.due) ∧ q'.settled.isDue = false := by
  obtain ⟨cs, q', hmeet, hledger⟩ := (Ledger.start q).meetAll ho he demands
  rw [List.nil_append] at hledger
  refine ⟨cs, q', hmeet, hledger, fun s => ⟨?_, fun hleft => hledger.exists_draw he hleft s⟩,
    fun s => ⟨?_, ?_⟩, fun s => ?_⟩
  · rintro ⟨c, -, hdraw⟩
    exact hledger.isActive_iff.1 (isActive_of_draw hdraw)
  · intro hdraw
    by_contra hleft
    simp only [not_exists, not_and, not_le] at hleft
    obtain ⟨c, -, hc⟩ := hledger.exists_draw he hleft s
    rw [hdraw] at hc
    cases hc
  · rintro ⟨m, hm, hle⟩
    exact hledger.draw_eq_none hm hle s
  · obtain ⟨ds, hlength, hds, hdraw⟩ := hledger.exists_drawDue ho he s
    exact ⟨ds, hlength, hds, hdraw, drawsWhileDue_iff.2 hdraw, by simp [isDue, settled, spendMany]⟩

/-- A quota of one to two letters. -/
def oneOrTwo : Quota := ⟨1, some 2, .literal ['x', 'y']⟩

/-- The letter that is due, another one, and then no more. -/
theorem meets_by_ledger_oneOrTwo :
    (∀ m ∈ oneOrTwo.left, oneOrTwo.due ≤ m) ∧ oneOrTwo.alphabet.isEmpty = false ∧
      ∃ q', oneOrTwo.meetAll [(.due, .cycle #[1]), (.one, .cycle #[0]), (.one, .cycle #[1])] =
          .ok (['y', 'x'], q') ∧
        oneOrTwo.Ledger ['y', 'x'] q' ∧ ∀ s, q'.draw s = ⟨.ok none, q', s⟩ := by
  have ho : ∀ m ∈ oneOrTwo.left, oneOrTwo.due ≤ m := by decide
  have he : oneOrTwo.alphabet.isEmpty = false := rfl
  obtain ⟨cs, q', hmeet, hledger, -, hnone, -⟩ := meets_by_ledger ho he
    [(.due, .cycle #[1]), (.one, .cycle #[0]), (.one, .cycle #[1])]
  obtain ⟨rfl, -⟩ := Prod.mk.inj (Except.ok.inj (hmeet.symm.trans rfl))
  exact ⟨ho, he, q', hmeet, hledger, fun s => (hnone s).2 ⟨2, rfl, Nat.le_refl 2⟩⟩

end Quota

end PasswordPolicy
