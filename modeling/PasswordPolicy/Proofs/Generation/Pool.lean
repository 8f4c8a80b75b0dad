import PasswordPolicy.Proofs.Generation.Draws
import PasswordPolicy.Proofs.Policy.Capacity

/-!
# The range of the filling

The further places of a password are filled from a pool that shrinks: a quota leaves it
when it is exhausted, and the quotas behind it move up. What the filling needs is that
the pool suffices for the places (`Suffices`): it can supply as many characters, by
quotas that are not exhausted, over alphabets that are not empty and all different. A
draw from a pool that suffices leaves a pool that suffices for one place less
(`Suffices.afterDraw`), so the filling goes on from stage to stage until every place has its
letter (`Stage.exists_fill_eq`).

Which alphabets the places are filled from is free as long as no quota is asked for more
than it has left (`Admits`). The pool admits a list of alphabets if one of its quotas can
begin and the pool after that draw admits the rest (`admits_cons_iff`), wherever the quota
stands in the pool. So the filling comes to every text over alphabets that the pool
admits (`spans_fill`).

Nothing here depends on the order of the pool. Each fact is proved for a pool with the
picked quota in front and carried over by a permutation.
-/

namespace PasswordPolicy

open Source

/-- The pool after a draw from the quota at `i`, of which `q` is left. -/
def afterDraw (pool : List Quota) (i : Nat) (q : Quota) : List Quota :=
  if q.isActive then pool.set i q else pool.eraseIdx i

/-- The same for the quota in front of a pool. -/
def afterFrontDraw (q : Quota) (rest : List Quota) : List Quota :=
  if q.isActive then q :: rest else rest

theorem afterDraw_perm {pool : List Quota} {i : Nat} (hi : i < pool.length) (q : Quota) :
    (afterDraw pool i q).Perm (afterFrontDraw q (pool.eraseIdx i)) := by
  unfold afterDraw afterFrontDraw
  split
  · exact List.set_perm_cons_eraseIdx hi q
  · exact List.Perm.refl _

theorem covers_left_spend {q : Quota} {ms : List (Option Nat)} {n : Nat}
    (ha : q.isActive = true) (h : Covers (q.left :: ms) (n + 1)) :
    Covers (q.spend.left :: ms) n := by
  rw [Quota.left_spend]
  cases hleft : q.left with
  | none => exact covers_cons_none ms n
  | some m =>
      have hpos : 0 < m := Quota.isActive_iff.1 ha m hleft
      have hsub : n + 1 - m = n - (m - 1) := by omega
      rw [hleft, covers_cons_some_iff, hsub] at h
      exact covers_cons_some_iff.2 h

/-- The pool can supply characters for a number of places. -/
structure Suffices (pool : List Quota) (n : Nat) : Prop where
  fillable : ∀ q ∈ pool, q.canFill = true
  distinct : (pool.map Quota.alphabet).Nodup
  covers : Covers (pool.map Quota.left) n

namespace Suffices

theorem perm {pool pool' : List Quota} {n : Nat} (h : Suffices pool n)
    (hp : pool.Perm pool') : Suffices pool' n where
  fillable q hq := h.fillable q (hp.mem_iff.2 hq)
  distinct := (hp.map Quota.alphabet).nodup_iff.1 h.distinct
  covers := (Covers.perm (hp.map Quota.left)).1 h.covers

theorem ne_nil {pool : List Quota} {n : Nat} (h : Suffices pool (n + 1)) : pool ≠ [] := by
  rintro rfl
  exact absurd (covers_nil_iff.1 h.covers) (Nat.succ_ne_zero n)

theorem isActive {pool : List Quota} {n : Nat} (h : Suffices pool n) {q : Quota}
    (hq : q ∈ pool) : q.isActive = true :=
  (Bool.and_eq_true_iff.1 (h.fillable q hq)).1

theorem isEmpty_alphabet {pool : List Quota} {n : Nat} (h : Suffices pool n) {q : Quota}
    (hq : q ∈ pool) : q.alphabet.isEmpty = false := by
  simpa using (Bool.and_eq_true_iff.1 (h.fillable q hq)).2

theorem afterFrontDraw {q : Quota} {rest : List Quota} {n : Nat}
    (h : Suffices (q :: rest) (n + 1)) : Suffices (afterFrontDraw q.spend rest) n := by
  have hactive := h.isActive (List.mem_cons_self ..)
  have hrest : ∀ r ∈ rest, r.canFill = true :=
    fun r hr => h.fillable r (List.mem_cons_of_mem q hr)
  have hcovers : Covers (q.spend.left :: rest.map Quota.left) n :=
    covers_left_spend hactive h.covers
  unfold PasswordPolicy.afterFrontDraw
  split
  next hspend =>
    refine ⟨?_, h.distinct, hcovers⟩
    intro r hr
    rcases List.mem_cons.1 hr with rfl | hr
    · simp [Quota.canFill, hspend, h.isEmpty_alphabet (List.mem_cons_self ..)]
    · exact hrest r hr
  next hspend =>
    refine ⟨hrest, h.distinct.of_cons, ?_⟩
    rwa [Quota.not_isActive_iff.1 hspend, covers_cons_some_iff] at hcovers

/-- A draw from a pool that suffices leaves a pool that suffices for one place less. -/
theorem afterDraw {pool : List Quota} {n : Nat} (h : Suffices pool (n + 1)) {i : Nat}
    (hi : i < pool.length) : Suffices (afterDraw pool i pool[i].spend) n := by
  have hfront : Suffices (pool[i] :: pool.eraseIdx i) (n + 1) :=
    h.perm (List.getElem_cons_eraseIdx_perm hi).symm
  exact hfront.afterFrontDraw.perm (afterDraw_perm hi _).symm

end Suffices

/-- A list of alphabets to fill places from, by which no quota of the pool is exceeded. -/
structure Admits (pool : List Quota) (as : List Alphabet) : Prop where
  known : ∀ a ∈ as, a ∈ pool.map Quota.alphabet
  within : ∀ q ∈ pool, ∀ m ∈ q.left, as.count q.alphabet ≤ m

theorem Admits.perm {pool pool' : List Quota} (hp : pool.Perm pool') {as : List Alphabet} :
    Admits pool as ↔ Admits pool' as := by
  constructor
  · intro h
    exact ⟨fun a ha => (hp.map Quota.alphabet).mem_iff.1 (h.known a ha),
      fun q hq => h.within q (hp.mem_iff.2 hq)⟩
  · intro h
    exact ⟨fun a ha => (hp.map Quota.alphabet).mem_iff.2 (h.known a ha),
      fun q hq => h.within q (hp.mem_iff.1 hq)⟩

theorem admits_cons_iff {q : Quota} {rest : List Quota} {as : List Alphabet} :
    Admits (q :: rest) as ↔ (∀ a ∈ as, a = q.alphabet ∨ a ∈ rest.map Quota.alphabet) ∧
      (∀ m ∈ q.left, as.count q.alphabet ≤ m) ∧
        ∀ r ∈ rest, ∀ m ∈ r.left, as.count r.alphabet ≤ m := by
  constructor
  · intro h
    exact ⟨fun a ha => List.mem_cons.1 (h.known a ha), h.within q (List.mem_cons_self ..),
      fun r hr => h.within r (List.mem_cons_of_mem q hr)⟩
  · rintro ⟨hknown, hq, hrest⟩
    refine ⟨fun a ha => List.mem_cons.2 (hknown a ha), ?_⟩
    intro r hr
    rcases List.mem_cons.1 hr with rfl | hr
    · exact hq
    · exact hrest r hr

/-- After a draw the quota is asked for one character less. -/
theorem admits_spend_cons_iff {q : Quota} {rest : List Quota} {as : List Alphabet}
    (ha : q.isActive = true) (hfresh : q.alphabet ∉ rest.map Quota.alphabet) :
    Admits (q.spend :: rest) as ↔ Admits (q :: rest) (q.alphabet :: as) := by
  rw [admits_cons_iff, admits_cons_iff]
  refine and_congr ?_ (and_congr ?_ ?_)
  · simp
  · rw [List.count_cons_self, Quota.left_spend, Quota.alphabet_spend]
    cases hleft : q.left with
    | none => simp
    | some m =>
        have hpos : 0 < m := Quota.isActive_iff.1 ha m hleft
        simp only [Option.map_some, Option.mem_def, Option.some.injEq, forall_eq']
        omega
  · refine forall₂_congr fun r hr => ?_
    have hne : q.alphabet ≠ r.alphabet := fun he => hfresh (he ▸ List.mem_map_of_mem hr)
    rw [List.count_cons_of_ne hne]

/-- An exhausted quota makes no difference to what a pool admits. -/
theorem admits_exhausted_cons_iff {q : Quota} {rest : List Quota} {as : List Alphabet}
    (hleft : q.left = some 0) (hfresh : q.alphabet ∉ rest.map Quota.alphabet) :
    Admits (q :: rest) as ↔ Admits rest as := by
  rw [admits_cons_iff]
  constructor
  · rintro ⟨hknown, hq, hrest⟩
    have hnone : q.alphabet ∉ as := List.count_eq_zero.1 (Nat.le_zero.1 (hq 0 hleft))
    refine ⟨fun a ha => (hknown a ha).resolve_left ?_, hrest⟩
    rintro rfl
    exact hnone ha
  · intro h
    refine ⟨fun a ha => .inr (h.known a ha), fun m _ => ?_, h.within⟩
    have hnone : q.alphabet ∉ as := fun ha => hfresh (h.known _ ha)
    rw [List.count_eq_zero.2 hnone]
    exact Nat.zero_le m

theorem admits_afterFrontDraw_iff {q : Quota} {rest : List Quota} {n : Nat}
    (h : Suffices (q :: rest) n) {as : List Alphabet} :
    Admits (afterFrontDraw q.spend rest) as ↔ Admits (q :: rest) (q.alphabet :: as) := by
  have hfresh : q.alphabet ∉ rest.map Quota.alphabet := (List.nodup_cons.1 h.distinct).1
  rw [← admits_spend_cons_iff (h.isActive (List.mem_cons_self ..)) hfresh]
  unfold afterFrontDraw
  split
  next hspend => exact Iff.rfl
  next hspend => exact (admits_exhausted_cons_iff (Quota.not_isActive_iff.1 hspend) hfresh).symm

/-- The pool after a draw admits a list if the pool admits the alphabet of the draw in
front of it. -/
theorem admits_afterDraw_iff {pool : List Quota} {n : Nat} (h : Suffices pool n) {i : Nat}
    (hi : i < pool.length) {as : List Alphabet} :
    Admits (afterDraw pool i pool[i].spend) as ↔ Admits pool (pool[i].alphabet :: as) := by
  have hperm : (pool[i] :: pool.eraseIdx i).Perm pool := List.getElem_cons_eraseIdx_perm hi
  rw [Admits.perm (afterDraw_perm hi _), admits_afterFrontDraw_iff (h.perm hperm.symm),
    Admits.perm hperm]

/-- Texts for a number of places, over alphabets that the pool admits. -/
def Fillings (pool : List Quota) (n : Nat) (w : Text) : Prop :=
  ∃ as, as.length = n ∧ Belong w as ∧ Admits pool as

theorem fillings_zero_iff {pool : List Quota} {w : Text} : Fillings pool 0 w ↔ w = [] := by
  constructor
  · rintro ⟨as, has, hw, -⟩
    rw [List.length_eq_zero_iff.1 has] at hw
    exact List.forall₂_nil_right_iff.1 hw
  · rintro rfl
    exact ⟨[], rfl, .nil, ⟨by simp, by simp⟩⟩

/-- A place is filled from some quota of the pool, and the rest from the pool after the
draw. -/
theorem fillings_succ_iff {pool : List Quota} {n : Nat} (h : Suffices pool (n + 1))
    {w : Text} :
    Fillings pool (n + 1) w ↔ ∃ i : Fin pool.length, ∃ c, c ∈ (pool.get i).alphabet.letters ∧
      ∃ cs, Fillings (afterDraw pool i (pool.get i).spend) n cs ∧ w = c :: cs := by
  constructor
  · rintro ⟨as, has, hw, hadmits⟩
    obtain ⟨a, as, rfl⟩ := List.exists_cons_of_length_eq_add_one has
    obtain ⟨c, cs, hc, hcs, rfl⟩ := List.forall₂_cons_right_iff.1 hw
    obtain ⟨q, hq, rfl⟩ := List.mem_map.1 (hadmits.known a (List.mem_cons_self ..))
    obtain ⟨i, hi, rfl⟩ := List.getElem_of_mem hq
    refine ⟨⟨i, hi⟩, c, hc, cs, ⟨as, Nat.succ.inj has, hcs, ?_⟩, rfl⟩
    exact (admits_afterDraw_iff h hi).2 hadmits
  · rintro ⟨i, c, hc, cs, ⟨as, has, hcs, hadmits⟩, rfl⟩
    refine ⟨pool[i].alphabet :: as, by rw [List.length_cons, has], .cons hc hcs, ?_⟩
    exact (admits_afterDraw_iff h i.isLt).1 hadmits

/-- The filling of one place, when the quota at `i` has been picked for it, and of those
that follow. -/
def fillFrom (n : Nat) (pool : List Quota) (i : Fin pool.length) (s : Source) :
    Except Fault (List Char × Source) := do
  let d := (pool.get i).draw s
  let c ← d.result
  let (cs, s') ← fill n (afterDraw pool i d.quota) d.source
  return (c.toList ++ cs, s')

theorem fill_succ {pool : List Quota} (h : 0 < pool.length) (n : Nat) (s : Source) :
    fill (n + 1) pool s = fillFrom n pool (s.below h).1 (s.below h).2 := by
  rw [fill, dif_pos h]
  rfl

/-- The filling of places comes to every text over alphabets that the pool admits, at a
price of two calls for each place. -/
theorem spans_fill (n : Nat) (pool : List Quota) (h : Suffices pool n) :
    Spans (fill n pool) (fun cs s => .ok (cs, s)) (2 * n) (Fillings pool n) := by
  induction n generalizing pool with
  | zero =>
      refine Spans.pure (x := []) (fun _ => rfl) ?_
      intro cs
      exact fillings_zero_iff
  | succ n ih =>
      have hpos : 0 < pool.length := List.length_pos_iff.2 h.ne_nil
      have hrest : ∀ (i : Fin pool.length), ∀ c ∈ (pool.get i).alphabet.letters, Spans
          (fun s => do
            let (cs, s') ← fill n (afterDraw pool i (pool.get i).spend) s
            return (c :: cs, s'))
          (fun cs s => .ok (cs, s)) (2 * n)
          (fun w => ∃ cs, Fillings (afterDraw pool i (pool.get i).spend) n cs ∧ w = c :: cs) := by
        intro i c _
        have hafter : Suffices (afterDraw pool i (pool.get i).spend) n := h.afterDraw i.isLt
        refine (ih _ hafter).map ?_
        intro cs _ s t hcs
        rw [hcs]
        rfl
      have hplace : ∀ i : Fin pool.length, Spans (fillFrom n pool i)
          (fun cs s => .ok (cs, s)) (1 + 2 * n)
          (fun w => ∃ c, c ∈ (pool.get i).alphabet.letters ∧
            ∃ cs, Fillings (afterDraw pool i (pool.get i).spend) n cs ∧ w = c :: cs) := by
        intro i
        have hmem : pool.get i ∈ pool := List.get_mem pool i
        refine (Quota.spans_draw (h.isActive hmem) (h.isEmpty_alphabet hmem)).bind (hrest i) ?_
        intro c _ s t hc
        rw [fillFrom, hc]
        rfl
      refine ((spans_below hpos).bind (fun i _ => hplace i) ?_).congr ?_ ?_
      · intro i _ s t hi
        rw [fill_succ hpos, hi]
      · omega
      · intro w
        rw [fillings_succ_iff h]
        simp only [true_and]

/-- How far a filling has come: the places that are left, the pool and the source. -/
structure Stage where
  places : Nat
  pool : List Quota
  source : Source

namespace Stage

/-- The filling of the places that are left. -/
def fill (st : Stage) : Except Fault (List Char × Source) :=
  PasswordPolicy.fill st.places st.pool st.source

/-- The draw for the next place, from the quota that the source picks. -/
def draw (st : Stage) (h : 0 < st.pool.length) : Drawing (Option Char) :=
  (st.pool.get (st.source.below h).1).draw (st.source.below h).2

/-- The stage after the next place. -/
def next (st : Stage) (h : 0 < st.pool.length) : Stage :=
  ⟨st.places - 1, afterDraw st.pool (st.source.below h).1 (st.draw h).quota,
    (st.draw h).source⟩

/-- The stages that a filling goes through. -/
inductive Reaches (st : Stage) : Stage → Prop
  | start : st.Reaches st
  | next {st' : Stage} (hst : st.Reaches st') (hplaces : 0 < st'.places)
      (hpool : 0 < st'.pool.length) : st.Reaches (st'.next hpool)

/-- A filling makes the draw for the next place and goes on from the next stage. -/
theorem fill_eq (st : Stage) (hplaces : 0 < st.places) (hpool : 0 < st.pool.length) :
    st.fill = do
      let c ← (st.draw hpool).result
      let (cs, s) ← (st.next hpool).fill
      return (c.toList ++ cs, s) := by
  obtain ⟨places, pool, source⟩ := st
  obtain ⟨n, rfl⟩ := Nat.exists_eq_add_of_lt hplaces
  rw [Nat.zero_add]
  exact fill_succ hpool n source

/-- A pool that suffices for the places that are left suffices at every later stage. -/
theorem suffices_of_reaches {st st' : Stage} (h : Suffices st.pool st.places)
    (hst : st.Reaches st') : Suffices st'.pool st'.places := by
  induction hst with
  | start => exact h
  | @next st' _ hplaces hpool ih =>
      obtain ⟨n, hn⟩ := Nat.exists_eq_add_of_lt hplaces
      rw [hn, Nat.zero_add] at ih
      have hindex := (st'.source.below hpool).1.isLt
      have hactive := ih.isActive (List.getElem_mem hindex)
      have hquota : (st'.draw hpool).quota = st'.pool[(st'.source.below hpool).1].spend := by
        rw [draw, Quota.quota_draw, List.get_eq_getElem, Fin.getElem_fin, hactive, if_pos rfl]
      rw [Stage.next, hquota, hn, Nat.zero_add, Nat.add_sub_cancel]
      exact ih.afterDraw hindex

end Stage

/-- Every quota of a pool that suffices gives a letter, whatever the source. -/
theorem Suffices.exists_letter {pool : List Quota} {n : Nat} (h : Suffices pool n) {q : Quota}
    (hq : q ∈ pool) (s : Source) :
    ∃ c ∈ q.alphabet.letters, (q.draw s).result = .ok (some c) := by
  obtain ⟨c, hc, hdraw⟩ :=
    (Quota.spans_draw (h.isActive hq) (h.isEmpty_alphabet hq)).sound s
  exact ⟨c, hc, by rw [hdraw]⟩

/-- With a pool that suffices the next place is filled with a letter, and the filling goes on
from the next stage. -/
theorem Stage.exists_fill_eq {st : Stage} (h : Suffices st.pool st.places)
    (hplaces : 0 < st.places) :
    ∃ (hpool : 0 < st.pool.length) (c : Char), (st.draw hpool).result = .ok (some c) ∧
      st.fill = (st.next hpool).fill.map fun r => (c :: r.1, r.2) := by
  obtain ⟨n, hn⟩ := Nat.exists_eq_succ_of_ne_zero hplaces.ne'
  have hpool : 0 < st.pool.length := List.length_pos_iff.2 (hn ▸ h).ne_nil
  obtain ⟨c, -, hc⟩ :=
    h.exists_letter (List.get_mem st.pool (st.source.below hpool).1) (st.source.below hpool).2
  refine ⟨hpool, c, hc, ?_⟩
  have hdraw : (st.draw hpool).result = .ok (some c) := hc
  rw [st.fill_eq hplaces hpool, hdraw]
  cases (st.next hpool).fill <;> rfl

end PasswordPolicy
