import PasswordPolicy.Generation.Source

/-!
# What comes of random choices

A procedure with a source as its argument comes to some of a range of results, and it
uses the source as often as it makes a choice. `Spans f mk n R` says that the results of
`f` are exactly those in `R`, and that each takes `n` calls: the next `n` numbers of the
source decide on a result, which is one of `R`, and each of `R` is the result for some
numbers. The function `mk` puts a result and the source after it into the form in which
`f` gives them, so that one notion serves pairs, records and outcomes that may be faults.

Single choices span their range (`spans_below`, `spans_pick?`), and procedures that
follow one another span what the second makes of the results of the first
(`Spans.bind`). So the results of a longer procedure are found by going through its
steps once, and say at the same time what it cannot do and what it can.
-/

namespace PasswordPolicy

namespace Source

/-- The source after a number of calls. -/
def skip (s : Source) (n : Nat) : Source := ⟨s.value, s.calls + n⟩

/-- The next numbers of a source are the given ones. -/
def Begins : Source → List Nat → Prop
  | _, [] => True
  | s, v :: vs => s.value s.calls = v ∧ s.advance.Begins vs

@[simp] theorem skip_zero (s : Source) : s.skip 0 = s := rfl

@[simp] theorem calls_skip (s : Source) (n : Nat) : (s.skip n).calls = s.calls + n := rfl

theorem skip_one (s : Source) : s.skip 1 = s.advance := rfl

theorem skip_skip (s : Source) (m n : Nat) : (s.skip m).skip n = s.skip (m + n) := by
  simp [skip, Nat.add_assoc]

theorem begins_append (s : Source) (us vs : List Nat) :
    s.Begins (us ++ vs) ↔ s.Begins us ∧ (s.skip us.length).Begins vs := by
  induction us generalizing s with
  | nil => simp [Begins]
  | cons u us ih =>
      have hskip : s.advance.skip us.length = s.skip (us.length + 1) := by
        rw [← skip_one, skip_skip, Nat.add_comm]
      rw [List.cons_append, Begins, Begins, ih, hskip, List.length_cons, and_assoc]

theorem begins_iff_forall (s : Source) (vs : List Nat) :
    s.Begins vs ↔ ∀ k (h : k < vs.length), s.value (s.calls + k) = vs[k] := by
  induction vs generalizing s with
  | nil => simp [Begins]
  | cons v vs ih =>
      rw [Begins, ih]
      constructor
      · rintro ⟨hv, hvs⟩ k hk
        cases k with
        | zero => exact hv
        | succ k =>
            have hshift : s.calls + (k + 1) = s.advance.calls + k := by
              rw [calls_advance, Nat.add_right_comm, Nat.add_assoc]
            have hnext := hvs k (Nat.lt_of_succ_lt_succ hk)
            rw [value_advance] at hnext
            rw [hshift, hnext, List.getElem_cons_succ]
      · intro h
        refine ⟨h 0 (Nat.zero_lt_succ _), ?_⟩
        intro k hk
        have hshift : s.advance.calls + k = s.calls + (k + 1) := by
          rw [calls_advance, Nat.add_right_comm, Nat.add_assoc]
        have hnext := h (k + 1) (Nat.succ_lt_succ hk)
        rw [value_advance, hshift, hnext, List.getElem_cons_succ]

/-- Any source begins with its next numbers. -/
theorem exists_begins (s : Source) (n : Nat) : ∃ vs : List Nat, vs.length = n ∧ s.Begins vs := by
  refine ⟨(List.range n).map fun k => s.value (s.calls + k), by simp, ?_⟩
  rw [begins_iff_forall]
  intro k hk
  simp

/-- A source that goes through a list again and again begins with that list. -/
theorem begins_cycle (vs : List Nat) : (cycle vs.toArray).Begins vs := by
  rw [begins_iff_forall]
  intro k hk
  simp [cycle, ofSequence, Nat.mod_eq_of_lt hk, hk]

end Source

open Source

/-- The results of `f` are exactly those in `R`, at a price of `n` calls each. -/
structure Spans {α β : Type} (f : Source → β) (mk : α → Source → β) (n : Nat)
    (R : α → Prop) : Prop where
  /-- The next numbers decide on the result, which is one of `R`. -/
  decided : ∀ vs : List Nat, vs.length = n →
    ∃ x, R x ∧ ∀ s : Source, s.Begins vs → f s = mk x (s.skip n)
  /-- Each of `R` is the result for sources that begin with certain numbers. -/
  complete : ∀ x, R x → ∃ vs : List Nat, vs.length = n ∧
    ∀ s : Source, s.Begins vs → f s = mk x (s.skip n)

namespace Spans

variable {α β γ δ : Type} {f : Source → β} {mk : α → Source → β} {n : Nat} {R : α → Prop}

/-- Whatever the source, the result is one of `R`. -/
theorem sound (hf : Spans f mk n R) (s : Source) : ∃ x, R x ∧ f s = mk x (s.skip n) := by
  obtain ⟨vs, hvs, hs⟩ := s.exists_begins n
  obtain ⟨x, hx, hfs⟩ := hf.decided vs hvs
  exact ⟨x, hx, hfs s hs⟩

/-- The same results at the same price, described in another way. -/
theorem congr (hf : Spans f mk n R) {m : Nat} {S : α → Prop} (hn : n = m)
    (h : ∀ x, R x ↔ S x) : Spans f mk m S := by
  have hRS : R = S := funext fun x => propext (h x)
  rw [← hn, ← hRS]
  exact hf

/-- A procedure that makes no choice. -/
theorem pure {x : α} (h : ∀ s, f s = mk x s) (hR : ∀ y, R y ↔ y = x) : Spans f mk 0 R where
  decided vs hvs := by
    obtain rfl := List.length_eq_zero_iff.1 hvs
    exact ⟨x, (hR x).2 rfl, fun s _ => h s⟩
  complete y hy := ⟨[], rfl, fun s _ => by rw [(hR y).1 hy, skip_zero, h]⟩

/-- A procedure that begins with `f` and goes on, with the result `x`, by `g x`. -/
theorem bind (hf : Spans f mk n R) {g : α → Source → γ} {k : δ → Source → γ} {m : Nat}
    {S : α → δ → Prop} (hg : ∀ x, R x → Spans (g x) k m (S x)) {h : Source → γ}
    (hh : ∀ x, R x → ∀ s t, f s = mk x t → h s = g x t) :
    Spans h k (n + m) (fun y => ∃ x, R x ∧ S x y) where
  decided ws hws := by
    obtain ⟨x, hx, hfs⟩ := hf.decided (ws.take n) (by simp [hws])
    obtain ⟨y, hy, hgs⟩ := (hg x hx).decided (ws.drop n) (by simp [hws])
    refine ⟨y, ⟨x, hx, hy⟩, ?_⟩
    intro s hs
    rw [← List.take_append_drop n ws, begins_append] at hs
    obtain ⟨hbegin, hrest⟩ := hs
    rw [List.length_take_of_le (hws ▸ Nat.le_add_right n m)] at hrest
    rw [hh x hx s _ (hfs s hbegin), hgs _ hrest, skip_skip]
  complete := by
    rintro y ⟨x, hx, hy⟩
    obtain ⟨us, hus, hfs⟩ := hf.complete x hx
    obtain ⟨vs, hvs, hgs⟩ := (hg x hx).complete y hy
    refine ⟨us ++ vs, by rw [List.length_append, hus, hvs], ?_⟩
    intro s hs
    obtain ⟨hbegin, hrest⟩ := (begins_append s us vs).1 hs
    rw [hus] at hrest
    rw [hh x hx s _ (hfs s hbegin), hgs _ hrest, skip_skip]

/-- A procedure that makes its result from that of another on the same source. -/
theorem map (hf : Spans f mk n R) {φ : α → δ} {k : δ → Source → γ} {h : Source → γ}
    (hh : ∀ x, R x → ∀ s t, f s = mk x t → h s = k (φ x) t) :
    Spans h k n (fun y => ∃ x, R x ∧ y = φ x) :=
  bind hf (fun x _ => pure (x := φ x) (fun _ => rfl) fun _ => Iff.rfl) hh

/-- A procedure that gives the results of another in another form. -/
theorem transfer (hf : Spans f mk n R) {k : α → Source → γ} {h : Source → γ}
    (hh : ∀ x, R x → ∀ s t, f s = mk x t → h s = k x t) : Spans h k n R := by
  refine (hf.map (φ := id) hh).congr rfl ?_
  intro y
  simp

end Spans

/-- A call of `below` comes to any place below the bound. -/
theorem spans_below {n : Nat} (h : 0 < n) :
    Spans (fun s => s.below h) Prod.mk 1 (fun _ => True) where
  decided vs hvs := by
    obtain ⟨v, rfl⟩ := List.length_eq_one_iff.1 hvs
    refine ⟨⟨v % n, Nat.mod_lt v h⟩, trivial, ?_⟩
    intro s hs
    exact Prod.ext (Fin.ext (congrArg (· % n) hs.1)) rfl
  complete i _ := by
    refine ⟨[i], rfl, ?_⟩
    intro s hs
    have hval : ((s.below h).1 : Nat) = i := by
      rw [below_fst_val, hs.1, Nat.mod_eq_of_lt i.isLt]
    exact Prod.ext (Fin.ext hval) rfl

/-- A pick from a list comes to any of its entries. -/
theorem spans_pick? {α : Type} {xs : List α} (h : xs ≠ []) :
    Spans (fun s => s.pick? xs) (fun x s => some (x, s)) 1 (fun x => x ∈ xs) := by
  have hpos : 0 < xs.length := List.length_pos_iff.2 h
  refine ((spans_below hpos).map (φ := fun i => xs[i]) ?_).congr rfl ?_
  · intro i _ s t hi
    rw [pick?, dif_pos hpos, hi]
  · intro x
    rw [List.mem_iff_getElem]
    constructor
    · rintro ⟨i, -, hi⟩
      exact ⟨i, i.isLt, hi.symm⟩
    · rintro ⟨i, hi, hx⟩
      exact ⟨⟨i, hi⟩, trivial, hx.symm⟩

end PasswordPolicy
