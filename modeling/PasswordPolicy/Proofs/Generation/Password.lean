import PasswordPolicy.Proofs.Generation.Settlement
import PasswordPolicy.Proofs.Generation.Shuffle

/-!
# Which passwords are generated

For a policy that can be met, the passwords that come of it are those of its length whose
characters can be attributed to its rules, no more and no fewer, and each takes the same
number of calls (`spans_generate`). Whatever the source, none of its steps fails
(`exists_gather`).
-/

namespace PasswordPolicy

namespace Policy

/-- A text of the right length whose characters can be attributed to the rules. -/
def IsMetBy (p : Policy) (w : Text) : Prop :=
  w.length = p.length ∧ ∃ owners, p.IsAttribution w owners

/-- The number of calls that a password takes. -/
def price (p : Policy) : Nat := p.least + 2 * (p.length - p.least) + (p.length - 1)

theorem length_of_belong_dueAlphabets {p : Policy} {w : Text}
    (h : Belong w (dueAlphabets p.quotas)) : w.length = p.least := by
  rw [h.length_eq, length_dueAlphabets, sum_due_quotas]

/-- The characters gathered are those due in the order of the rules, then any that fill
the further places from the pool that is left. -/
theorem spans_gather {p : Policy} (h : p.isFeasible = true) :
    Spans p.gather (fun x s => .ok ⟨x.1, x.2, s⟩) (p.least + 2 * (p.length - p.least))
      (fun x : Text × Text => Belong x.1 (dueAlphabets p.quotas) ∧
        Fillings (settledPool p.quotas) (p.length - p.least) x.2) := by
  have hdeal := spans_deal (isSound_of_mem_quotas h)
  rw [sum_due_quotas] at hdeal
  have hfill := spans_fill _ _ (suffices_settledPool h)
  have hmore : ∀ ds, Belong ds (dueAlphabets p.quotas) → Spans
      (fun s => do
        let x ← fill (p.length - p.least) (settledPool p.quotas) s
        return (⟨ds, x.1, x.2⟩ : Gathering))
      (fun x s => .ok ⟨x.1, x.2, s⟩) (2 * (p.length - p.least))
      (fun x : Text × Text => ∃ cs,
        Fillings (settledPool p.quotas) (p.length - p.least) cs ∧ x = (ds, cs)) := by
    intro ds _
    refine hfill.map ?_
    intro cs _ s t hcs
    rw [hcs]
    rfl
  refine (hdeal.bind hmore ?_).congr rfl ?_
  · intro ds hds s t hs
    rw [gather, hs, ← length_of_belong_dueAlphabets hds]
    rfl
  · rintro ⟨ds, cs⟩
    simp

/-- The passwords that a policy is met by are the rearrangements of what can be
gathered. -/
theorem isMetBy_iff {p : Policy} {w : Text} (h : p.isFeasible = true) :
    p.IsMetBy w ↔ ∃ x : Text × Text, (Belong x.1 (dueAlphabets p.quotas) ∧
      Fillings (settledPool p.quotas) (p.length - p.least) x.2) ∧ w.Perm (x.1 ++ x.2) := by
  have hle : p.least ≤ p.length := (isFeasible_iff.1 h).2.1
  rw [IsMetBy, exists_isAttribution_iff]
  constructor
  · rintro ⟨hl, as, hw, has⟩
    obtain ⟨bs, hbs, hadmits⟩ := exists_admits_of_isAllotment has (isEmpty_of_mem_of_belong hw)
    obtain ⟨w', hperm, hw'⟩ := exists_perm_belong hw hbs
    obtain ⟨ds, hds, cs, hcs, rfl⟩ := belong_append_iff.1 hw'
    have hlength : bs.length = p.length - p.least := by
      have hsum := hbs.length_eq
      rw [List.length_append, length_dueAlphabets, sum_due_quotas, ← hw.length_eq, hl] at hsum
      omega
    exact ⟨(ds, cs), ⟨hds, bs, hlength, hcs, hadmits⟩, hperm⟩
  · rintro ⟨⟨ds, cs⟩, ⟨hds, bs, hlength, hcs, hadmits⟩, hperm⟩
    have hall : Belong (ds ++ cs) (dueAlphabets p.quotas ++ bs) :=
      belong_append_iff.2 ⟨ds, hds, cs, hcs, rfl⟩
    obtain ⟨as, hw, has⟩ := exists_belong_perm hall hperm
    refine ⟨?_, as, hw, (isAllotment_append hadmits).perm has.symm⟩
    rw [hperm.length_eq, List.length_append, length_of_belong_dueAlphabets hds, hcs.length_eq,
      hlength, Nat.add_sub_cancel' hle]

/-- An attempt comes to every password that meets the policy, and to no other text. How
many of its characters were due does not depend on the password. -/
theorem spans_attempt {p : Policy} (h : p.isFeasible = true) :
    Spans p.attempt (fun w s => .ok (.made p.least w, s)) p.price p.IsMetBy := by
  have hshuffle : ∀ x : Text × Text, Belong x.1 (dueAlphabets p.quotas) ∧
      Fillings (settledPool p.quotas) (p.length - p.least) x.2 → Spans
      (fun s => Except.ok
        (Attempt.made p.least (s.shuffle (x.1 ++ x.2)).1, (s.shuffle (x.1 ++ x.2)).2))
      (fun w s => (.ok (.made p.least w, s) : Except Fault (Attempt × Source)))
      (p.length - 1) (fun w => w.Perm (x.1 ++ x.2)) := by
    rintro ⟨ds, cs⟩ ⟨hds, as, has, hcs, -⟩
    have hlength : (ds ++ cs).length = p.length := by
      have := (isFeasible_iff.1 h).2.1
      rw [List.length_append, length_of_belong_dueAlphabets hds, hcs.length_eq, has]
      omega
    rw [← hlength]
    refine (spans_shuffle (ds ++ cs)).transfer ?_
    intro w _ s t hw
    rw [hw]
  refine ((spans_gather h).bind hshuffle ?_).congr rfl ?_
  · intro x hx s t hs
    rw [attempt_of_isFeasible h, hs, ← length_of_belong_dueAlphabets hx.1]
    rfl
  · intro w
    exact (isMetBy_iff h).symm

/-- A policy comes to every password that meets it, and to no other text. -/
theorem spans_generate {p : Policy} (h : p.isFeasible = true) :
    Spans p.generate (fun w s => .ok (some w, s)) p.price p.IsMetBy := by
  refine (spans_attempt h).transfer ?_
  intro w _ s t hs
  rw [generate, hs]
  rfl

theorem generate_eq_ok_some {p : Policy} {s s' : Source} {w : Text}
    (h : p.generate s = .ok (some w, s')) : p.isFeasible = true := by
  by_contra hinfeasible
  rw [generate_of_not_isFeasible (by simpa using hinfeasible)] at h
  simp at h

/-- A password that is generated has the length of the policy, and its characters can be
attributed to the rules. So no rule has too few letters in it, and none has too many whose
alphabet is apart from the others. -/
theorem isAttribution_of_generate {p : Policy} {s s' : Source} {w : Text}
    (h : p.generate s = .ok (some w, s')) :
    w.length = p.length ∧ (∃ owners, p.IsAttribution w owners) ∧
      ∀ r ∈ p.rules, r.range.least ≤ r.count w ∧
        ((∀ r' ∈ p.rules, r' ≠ r → r.alphabet.letters.Disjoint r'.alphabet.letters) →
          ∀ m, r.range.most = some m → r.count w ≤ m) := by
  obtain ⟨v, ⟨hl, owners, hv⟩, hs⟩ := (spans_generate (generate_eq_ok_some h)).sound s
  obtain rfl : w = v := by
    rw [h] at hs
    exact Option.some.inj (congrArg Prod.fst (Except.ok.inj hs))
  exact ⟨hl, ⟨owners, hv⟩, fun r hr =>
    ⟨hv.least_le_count hr, fun hapart m hm => hv.count_le_most hr hapart hm⟩⟩

/-- A policy over two alphabets that share a letter. -/
def overlapping : Policy :=
  ⟨4, .ofList [⟨.exactly 1, .literal ['a', 'b']⟩, ⟨.atLeast 1, .literal ['b', 'c', 'c']⟩]⟩

/-- The first `b` may stand for either rule, so only the least counts are certain. -/
theorem isAttribution_of_generate_overlapping :
    overlapping.generate (.cycle #[1, 2, 0, 1, 0, 3, 1]) =
        .ok (some ['c', 'b', 'b', 'c'], (Source.cycle #[1, 2, 0, 1, 0, 3, 1]).skip 9) ∧
      ['c', 'b', 'b', 'c'].length = overlapping.length ∧
      (∃ owners, overlapping.IsAttribution ['c', 'b', 'b', 'c'] owners) ∧
      ∀ r ∈ overlapping.rules, r.range.least ≤ r.count ['c', 'b', 'b', 'c'] ∧
        ((∀ r' ∈ overlapping.rules, r' ≠ r →
            r.alphabet.letters.Disjoint r'.alphabet.letters) →
          ∀ m, r.range.most = some m → r.count ['c', 'b', 'b', 'c'] ≤ m) := by
  have hs : overlapping.generate (.cycle #[1, 2, 0, 1, 0, 3, 1]) =
      .ok (some ['c', 'b', 'b', 'c'], (Source.cycle #[1, 2, 0, 1, 0, 3, 1]).skip 9) := rfl
  exact ⟨hs, isAttribution_of_generate hs⟩

/-- The steps of a gathering for a policy that can be met, each with the calls that it takes. -/
theorem exists_gather {p : Policy} (h : p.isFeasible = true) (s : Source) :
    ∃ ds cs, deal p.quotas s = .ok ⟨ds, settledPool p.quotas, s.skip p.least⟩ ∧
      ds.length = p.least ∧
      fill (p.length - p.least) (settledPool p.quotas) (s.skip p.least) =
        .ok (cs, (s.skip p.least).skip (2 * (p.length - p.least))) ∧
      cs.length = p.length - p.least ∧
      p.gather s = .ok ⟨ds, cs, (s.skip p.least).skip (2 * (p.length - p.least))⟩ := by
  obtain ⟨ds, hds, hdeal⟩ := (spans_deal (isSound_of_mem_quotas h)).sound s
  obtain ⟨cs, ⟨as, has, hcs, -⟩, hfill⟩ :=
    (spans_fill _ _ (suffices_settledPool h)).sound (s.skip p.least)
  have hdue : ds.length = p.least := length_of_belong_dueAlphabets hds
  rw [sum_due_quotas] at hdeal
  refine ⟨ds, cs, hdeal, hdue, hfill, hcs.length_eq.trans has, ?_⟩
  have hplaces : fill (p.length - ds.length) (settledPool p.quotas) (s.skip p.least) =
      .ok (cs, (s.skip p.least).skip (2 * (p.length - p.least))) := by
    rw [hdue, hfill]
  rw [gather, bind_eq_ok_iff]
  exact ⟨_, hdeal, bind_eq_ok_iff.2 ⟨_, hplaces, rfl⟩⟩

/-- The pool suffices at every stage of the filling. -/
theorem suffices_of_deal {p : Policy} (h : p.isFeasible = true) {s : Source} {d : Deal}
    (hd : deal p.quotas s = .ok d) {st : Stage}
    (hst : (Stage.mk (p.length - d.letters.length) d.pool d.source).Reaches st) :
    Suffices st.pool st.places := by
  obtain ⟨ds, -, hdeal, hdue, -⟩ := exists_gather h s
  obtain rfl := Except.ok.inj (hd.symm.trans hdeal)
  have hstart := suffices_settledPool h
  rw [← hdue] at hstart
  exact Stage.suffices_of_reaches hstart hst

/-- Generation does not fail. A policy that cannot be met is refused without a call, and
any other comes to a password of its length: all that is due is drawn, and the further places
are filled one after the other. As long as places are left there is a quota in the pool, and
every quota in it gives a letter of its alphabet, so no place is passed over. -/
theorem generate_total (p : Policy) (s : Source) :
    (p.isFeasible = false ↔ p.generate s = .ok (none, s)) ∧
      (p.isFeasible = true ↔
        ∃ w s', p.generate s = .ok (some w, s') ∧ w.length = p.length) ∧
      (p.isFeasible = true → ∃ d g, deal p.quotas s = .ok d ∧ p.gather s = .ok g ∧
        g.due = d.letters ∧ d.letters.length + g.further.length = p.length ∧
        (Stage.mk (p.length - d.letters.length) d.pool d.source).fill =
          .ok (g.further, g.source) ∧
        ∀ st, (Stage.mk (p.length - d.letters.length) d.pool d.source).Reaches st →
          0 < st.places →
            (∀ q ∈ st.pool, ∀ t,
              ∃ c ∈ q.alphabet.letters, (q.draw t).result = .ok (some c)) ∧
            ∃ (hpool : 0 < st.pool.length) (c : Char),
              (st.draw hpool).result = .ok (some c) ∧
              st.fill = (st.next hpool).fill.map fun r => (c :: r.1, r.2)) := by
  refine ⟨⟨fun h => generate_of_not_isFeasible h s, ?_⟩, ⟨?_, ?_⟩, ?_⟩
  · intro h
    by_contra hfeasible
    obtain ⟨w, -, hs⟩ := (spans_generate (by simpa using hfeasible)).sound s
    rw [h] at hs
    simp at hs
  · intro h
    obtain ⟨w, hw, hs⟩ := (spans_generate h).sound s
    exact ⟨w, _, hs, hw.1⟩
  · rintro ⟨w, s', hs, -⟩
    exact generate_eq_ok_some hs
  · intro h
    obtain ⟨ds, cs, hdeal, hdue, hfill, hfurther, hgather⟩ := exists_gather h s
    have hle : p.least ≤ p.length := (isFeasible_iff.1 h).2.1
    refine ⟨_, _, hdeal, hgather, rfl, ?_, ?_, ?_⟩
    · rw [hdue, hfurther, Nat.add_sub_cancel' hle]
    · rw [Stage.fill, hdue, hfill]
    · intro st hst hplaces
      have hsuffices := suffices_of_deal h hdeal hst
      exact ⟨fun q hq t => hsuffices.exists_letter hq t, Stage.exists_fill_eq hsuffices hplaces⟩

/-- Every text of the right length whose characters can be attributed to the rules comes
of some run of numbers, and no number of the run is used twice. -/
theorem exists_source_of_isAttribution {p : Policy} {w : Text} {owners : List Rule}
    (hl : w.length = p.length) (h : p.IsAttribution w owners) :
    ∃ vs : List Nat, vs ≠ [] ∧ ∃ s', p.generate (.cycle vs.toArray) = .ok (some w, s') ∧
      s'.calls ≤ vs.length := by
  obtain ⟨as, hw, has⟩ := exists_isAttribution_iff.1 ⟨owners, h⟩
  have hfeasible : p.isFeasible = true :=
    has.isFeasible (hw.length_eq.symm.trans hl) (isEmpty_of_mem_of_belong hw)
  obtain ⟨vs, hvs, hgenerate⟩ := (spans_generate hfeasible).complete w ⟨hl, owners, h⟩
  -- A source needs a number even where none is used.
  have hbegins : (Source.cycle (vs ++ [0]).toArray).Begins vs :=
    ((Source.begins_append _ vs [0]).1 (Source.begins_cycle _)).1
  refine ⟨vs ++ [0], by simp, _, hgenerate _ hbegins, ?_⟩
  simp [Source.cycle, Source.ofSequence, hvs]

theorem exists_source_of_isAttribution_overlapping :
    ['b', 'c', 'a', 'b'].length = overlapping.length ∧
      overlapping.IsAttribution ['b', 'c', 'a', 'b']
        [⟨.atLeast 1, .literal ['b', 'c', 'c']⟩, ⟨.atLeast 1, .literal ['b', 'c', 'c']⟩,
          ⟨.exactly 1, .literal ['a', 'b']⟩, ⟨.atLeast 1, .literal ['b', 'c', 'c']⟩] ∧
      ∃ vs : List Nat, vs ≠ [] ∧ ∃ s',
        overlapping.generate (.cycle vs.toArray) = .ok (some ['b', 'c', 'a', 'b'], s') ∧
          s'.calls ≤ vs.length := by
  have hl : ['b', 'c', 'a', 'b'].length = overlapping.length := rfl
  have hs : overlapping.IsAttribution ['b', 'c', 'a', 'b']
      [⟨.atLeast 1, .literal ['b', 'c', 'c']⟩, ⟨.atLeast 1, .literal ['b', 'c', 'c']⟩,
        ⟨.exactly 1, .literal ['a', 'b']⟩, ⟨.atLeast 1, .literal ['b', 'c', 'c']⟩] :=
    ⟨by decide, by simp [Alphabet.letters], by decide⟩
  exact ⟨hl, hs, exists_source_of_isAttribution hl hs⟩

end Policy

end PasswordPolicy
