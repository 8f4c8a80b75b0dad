import PasswordPolicy.Proofs.Generation.Arrangement
import PasswordPolicy.Proofs.Generation.Password

/-!
# Every position is as likely as any other

The numbers that come before the shuffle decide which characters a password has, and the numbers
of the shuffle decide where they stand. When the first are held fixed, the characters gathered
are fixed, and the password is the arrangement of them that the shuffle makes (`Arranges`). Each
permutation of the positions is then the arrangement for exactly one choice of places, so the
characters that were due, although they are gathered first, come to each set of as many
positions equally often (`arranges_equally_often`).
-/

namespace PasswordPolicy

namespace Policy

variable {p : Policy}

/-- The passwords that come of a policy when the numbers before the shuffle are given. -/
structure Arranges (p : Policy) (us : List Nat) (due further : Text)
    (entry : Fin p.length → Char) : Prop where
  /-- The characters that are due are gathered in the order of the rules. -/
  belong : Belong due (dueAlphabets p.quotas)
  length_due : due.length = p.least
  entries : due ++ further = List.ofFn entry
  gathered : ∀ s : Source, s.Begins us → p.gather s = .ok ⟨due, further, s.skip us.length⟩
  /-- The password has these characters, arranged by the places that the shuffle comes to. -/
  generated : ∀ s : Source, s.Begins us → p.generate s =
    .ok (some (List.ofFn (entry ∘ ((s.skip us.length).swaps p.length).arrangement)),
      (s.skip us.length).skip (p.length - 1))
  /-- The shuffle comes to every choice of places. -/
  attained : ∀ js : Swaps p.length, ∃ s : Source, s.Begins us ∧
    (s.skip us.length).swaps p.length = js

/-- A policy that can be met generates what it gathers, shuffled. -/
theorem generate_of_gather (h : p.isFeasible = true) {s : Source} {g : Gathering}
    (hg : p.gather s = .ok g) : p.generate s = .ok (some g.shuffled.1, g.shuffled.2) := by
  rw [generate, attempt_of_isFeasible h, hg]
  rfl

/-- The numbers before the shuffle fix the characters, in an order in which those that are due
come first. Every permutation of the positions is the arrangement for exactly one choice of
places by the shuffle, and the characters that are due come to each set of as many positions
for equally many choices. -/
theorem arranges_equally_often (h : p.isFeasible = true) {us : List Nat}
    (hus : us.length = p.least + 2 * (p.length - p.least)) :
    (∃ due further entry, p.Arranges us due further entry) ∧
      Function.Bijective (Swaps.arrangement (n := p.length)) ∧
      ∀ places : Finset (Fin p.length), places.card = p.least →
        (Finset.univ.filter fun js : Swaps p.length => js.landing p.least = places).card =
          p.least.factorial * (p.length - p.least).factorial := by
  refine ⟨?_, Swaps.arrangement_bijective p.length, ?_⟩
  · obtain ⟨⟨due, further⟩, ⟨hdue, as, has, hfurther, -⟩, hgather⟩ :=
      (spans_gather h).decided us hus
    rw [← hus] at hgather
    have hle : p.least ≤ p.length := (isFeasible_iff.1 h).2.1
    have hlength : (due ++ further).length = p.length := by
      rw [List.length_append, length_of_belong_dueAlphabets hdue, hfurther.length_eq, has]
      omega
    obtain ⟨entry, hentry⟩ : ∃ entry : Fin p.length → Char, due ++ further = List.ofFn entry := by
      rw [← hlength]
      exact ⟨(due ++ further).get, (List.ofFn_get _).symm⟩
    refine ⟨due, further, entry, hdue, length_of_belong_dueAlphabets hdue, hentry, hgather, ?_, ?_⟩
    · intro s hs
      rw [generate_of_gather h (hgather s hs), Gathering.shuffled, hentry, Source.shuffle_ofFn]
    · exact Source.exists_swaps_eq us
  · intro places hplaces
    rw [← hplaces]
    exact Swaps.card_landing_eq places

/-- A policy with one letter due and two digits. -/
def oneDue : Policy :=
  ⟨3, .ofList [⟨.exactly 1, .literal ['a', 'b']⟩, ⟨.atLeast 0, .ofClass .number⟩]⟩

/-- The letter comes to the last position for two of the six choices of places. -/
theorem arranges_equally_often_oneDue :
    oneDue.isFeasible = true ∧
      [1, 0, 4, 0, 8].length = oneDue.least + 2 * (oneDue.length - oneDue.least) ∧
      (∃ entry, oneDue.Arranges [1, 0, 4, 0, 8] ['b'] ['5', '9'] entry) ∧
      Function.Bijective (Swaps.arrangement (n := 3)) ∧
      (Finset.univ.filter fun js : Swaps 3 => js.landing 1 = {2}).card = 2 := by
  have h : oneDue.isFeasible = true := by decide
  have hus : [1, 0, 4, 0, 8].length = oneDue.least + 2 * (oneDue.length - oneDue.least) := rfl
  obtain ⟨⟨due, further, entry, harranges⟩, hbijective, hcount⟩ := arranges_equally_often h hus
  have hgather := harranges.gathered _ (Source.begins_cycle [1, 0, 4, 0, 8])
  obtain ⟨rfl, rfl, -⟩ := Gathering.mk.inj (Except.ok.inj (hgather.symm.trans rfl))
  exact ⟨h, hus, ⟨entry, harranges⟩, hbijective, hcount {Fin.last 2} rfl⟩

end Policy

end PasswordPolicy
