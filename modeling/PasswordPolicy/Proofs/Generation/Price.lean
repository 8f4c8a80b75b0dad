import PasswordPolicy.Proofs.Generation.Password
import PasswordPolicy.Workspace.Step

/-!
# What a password costs

A policy fixes how often the source is called when a password is generated (`cost`). Each
character that is due takes one call, each further place takes two, one for a quota of the pool
and one for a letter, and the shuffle takes one for each position but the first
(`Proceeds`). A policy that cannot be met takes none.

A generation leaves nothing behind but the calls. So each of a number of passwords from one
source is what a single generation gives when the source has gone on by the cost of the
passwords before it (`exists_generateMany`). It is the same in a workspace, where the policy is
read each time from cells that could have changed (`run_replicate_generate`).
-/

namespace PasswordPolicy

namespace Policy

variable {p : Policy}

/-- The number of calls that a generation takes. -/
def cost (p : Policy) : Nat := if p.isFeasible then p.price else 0

/-- The bounds of the calls that a generation makes. -/
inductive Asks (p : Policy) (s : Source) : Nat → Prop
  /-- One of the letters for a character that is due. -/
  | due {q : Quota} (hq : q ∈ p.quotas) (hdue : 0 < q.due) :
      Asks p s q.alphabet.letters.length
  /-- One of the quotas in the pool for a further place. -/
  | quota {d : Deal} {st : Stage} (hd : deal p.quotas s = .ok d)
      (hst : (Stage.mk (p.length - d.letters.length) d.pool d.source).Reaches st)
      (hplaces : 0 < st.places) : Asks p s st.pool.length
  /-- One of the letters of a quota in the pool. -/
  | letter {d : Deal} {st : Stage} {q : Quota} (hd : deal p.quotas s = .ok d)
      (hst : (Stage.mk (p.length - d.letters.length) d.pool d.source).Reaches st)
      (hplaces : 0 < st.places) (hq : q ∈ st.pool) : Asks p s q.alphabet.letters.length
  /-- One of the positions up to a position. -/
  | position {i : Nat} (hi : i < p.length) : Asks p s (i + 1)

/-- The steps of a generation, each with the calls that it takes. -/
structure Proceeds (p : Policy) (s : Source) (d : Deal) (cs w : Text) : Prop where
  dealt : deal p.quotas s = .ok d
  length_dealt : d.letters.length = p.least
  source_dealt : d.source = s.skip p.least
  filled : fill (p.length - p.least) d.pool d.source =
    .ok (cs, d.source.skip (2 * (p.length - p.least)))
  length_filled : cs.length = p.length - p.least
  shuffled : (d.source.skip (2 * (p.length - p.least))).shuffle (d.letters ++ cs) =
    (w, (d.source.skip (2 * (p.length - p.least))).skip (p.length - 1))
  generated : p.generate s =
    .ok (some w, s.skip (p.least + 2 * (p.length - p.least) + (p.length - 1)))

theorem exists_proceeds (h : p.isFeasible = true) (s : Source) :
    ∃ d cs w, p.Proceeds s d cs w := by
  obtain ⟨ds, cs, hdeal, hdue, hfill, hfurther, hgather⟩ := exists_gather h s
  obtain ⟨w, -, hshuffle⟩ := (spans_shuffle (ds ++ cs)).sound
    ((s.skip p.least).skip (2 * (p.length - p.least)))
  have hle : p.least ≤ p.length := (isFeasible_iff.1 h).2.1
  have hlength : (ds ++ cs).length = p.length := by
    rw [List.length_append, hdue, hfurther, Nat.add_sub_cancel' hle]
  rw [hlength] at hshuffle
  refine ⟨_, cs, w, hdeal, hdue, rfl, hfill, hfurther, hshuffle, ?_⟩
  have hend : (Gathering.mk ds cs ((s.skip p.least).skip (2 * (p.length - p.least)))).shuffled =
      (w, s.skip (p.least + 2 * (p.length - p.least) + (p.length - 1))) := by
    rw [Gathering.shuffled, hshuffle, Source.skip_skip, Source.skip_skip, Nat.add_assoc]
  rw [generate, attempt_of_isFeasible h, hgather]
  exact congrArg (fun x => Except.ok (some x.1, x.2)) hend

/-- Every bound of a call is positive. -/
theorem pos_of_asks (h : p.isFeasible = true) {s : Source} {n : Nat} (hn : p.Asks s n) :
    0 < n := by
  cases hn with
  | due hq hdue =>
      have hletters := (isSound_of_mem_quotas h _ hq).drawable hdue
      exact List.length_pos_iff.2 (List.isEmpty_eq_false_iff.1 hletters)
  | quota hd hst hplaces =>
      have hsuffices := suffices_of_deal h hd hst
      obtain ⟨n, hn⟩ := Nat.exists_eq_succ_of_ne_zero hplaces.ne'
      rw [hn] at hsuffices
      exact List.length_pos_iff.2 hsuffices.ne_nil
  | letter hd hst _ hq =>
      have hletters := (suffices_of_deal h hd hst).isEmpty_alphabet hq
      exact List.length_pos_iff.2 (List.isEmpty_eq_false_iff.1 hletters)
  | position hi => exact Nat.succ_pos _

theorem exists_generate (p : Policy) (s : Source) :
    ∃ w, p.generate s = .ok (w, s.skip p.cost) := by
  cases h : p.isFeasible with
  | false =>
      refine ⟨none, ?_⟩
      rw [generate_of_not_isFeasible h, cost, h]
      rfl
  | true =>
      obtain ⟨d, cs, w, hw⟩ := exists_proceeds h s
      refine ⟨some w, ?_⟩
      rw [hw.generated, cost, h]
      rfl

/-- Each of a number of passwords is that of a single generation. -/
theorem exists_generateMany (p : Policy) (n : Nat) (s : Source) :
    ∃ ws, p.generateMany n s = .ok (ws, s.skip (n * p.cost)) ∧ ws.length = n ∧
      ∀ k w, ws[k]? = some w → ∃ s', p.generate (s.skip (k * p.cost)) = .ok (w, s') := by
  induction n generalizing s with
  | zero => exact ⟨[], by rw [Nat.zero_mul]; rfl, rfl, by simp⟩
  | succ n ih =>
      obtain ⟨w, hw⟩ := p.exists_generate s
      obtain ⟨ws, hws, hlength, hrest⟩ := ih (s.skip p.cost)
      have hskip : ∀ k, (s.skip p.cost).skip (k * p.cost) = s.skip ((k + 1) * p.cost) := by
        intro k
        rw [Source.skip_skip, Nat.add_comm, Nat.succ_mul]
      refine ⟨w :: ws, ?_, by rw [List.length_cons, hlength], ?_⟩
      · rw [generateMany, bind_eq_ok_iff]
        refine ⟨_, hw, bind_eq_ok_iff.2 ⟨_, hws, ?_⟩⟩
        rw [← hskip]
        rfl
      · intro k v hv
        cases k with
        | zero =>
            obtain rfl : w = v := by simpa using hv
            rw [Nat.zero_mul]
            exact ⟨_, hw⟩
        | succ k =>
            rw [← hskip]
            exact hrest k v (by simpa using hv)

end Policy

namespace Workspace

variable {v : Workspace} {label : Text} {p : Policy}

theorem step_generate {t : Option Text} {s : Source} (hp : v.policy label = .ok p)
    (ht : p.generate v.source = .ok (t, s)) :
    v.step (.act (.generate label)) = (.ok (.text t), { v with source := s }) := by
  have hperform : v.perform (.generate label) = .ok (.text t, { v with source := s }) := by
    rw [perform, bind_eq_ok_iff]
    refine ⟨p, hp, bind_eq_ok_iff.2 ⟨(t, s), ?_, rfl⟩⟩
    rw [ht]
    rfl
  rw [step, hperform]

/-- Generations leave a workspace as it was but for the calls. -/
theorem run_replicate_generate (hp : v.policy label = .ok p) (n : Nat) :
    v.run (List.replicate n (.act (.generate label))) =
      { v with source := v.source.skip (n * p.cost) } := by
  induction n generalizing v with
  | zero =>
      rw [Nat.zero_mul]
      rfl
  | succ n ih =>
      obtain ⟨t, ht⟩ := p.exists_generate v.source
      rw [List.replicate_succ, run, List.foldl_cons, step_generate hp ht]
      have hrest := @ih { v with source := v.source.skip p.cost } hp
      rw [run] at hrest
      rw [hrest, Source.skip_skip, Nat.add_comm, ← Nat.succ_mul]

end Workspace

/-- A policy that can be met takes a call for each character that is due, two for each further
place and one for each position but the first, whatever the numbers of the source, and each call
asks for something below a positive bound. Any other takes no call. So the passwords that one
source gives, one after the other, are those of single generations, each from the source as the
ones before leave it, and nothing but the source changes. -/
theorem Policy.generate_consumption (p : Policy) :
    (p.isFeasible = true → ∀ s, (∃ d cs w, p.Proceeds s d cs w) ∧ ∀ n, p.Asks s n → 0 < n) ∧
      (p.isFeasible = false → ∀ s, p.generate s = .ok (none, s)) ∧
      (∀ n s, ∃ ws, p.generateMany n s = .ok (ws, s.skip (n * p.cost)) ∧ ws.length = n ∧
        ∀ k w, ws[k]? = some w → ∃ s', p.generate (s.skip (k * p.cost)) = .ok (w, s')) ∧
      ∀ (v : Workspace) (label : Text), v.policy label = .ok p → ∀ n, ∃ w s',
        p.generate (v.source.skip (n * p.cost)) = .ok (w, s') ∧
          (v.run (List.replicate n (.act (.generate label)))).step (.act (.generate label)) =
            (.ok (.text w), { v with source := s' }) := by
  refine ⟨?_, generate_of_not_isFeasible, p.exists_generateMany, ?_⟩
  · exact fun h s => ⟨exists_proceeds h s, fun n hn => pos_of_asks h hn⟩
  · intro v label hp n
    obtain ⟨w, hw⟩ := p.exists_generate (v.source.skip (n * p.cost))
    refine ⟨w, _, hw, ?_⟩
    rw [Workspace.run_replicate_generate hp]
    exact Workspace.step_generate hp hw

end PasswordPolicy
