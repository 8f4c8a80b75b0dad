import Mathlib.Algebra.BigOperators.Fin
import Mathlib.Combinatorics.KatonaCircle
import Mathlib.Data.Fintype.BigOperators
import Mathlib.Data.Nat.Factorial.BigOperators
import Mathlib.GroupTheory.Perm.Option
import PasswordPolicy.Proofs.Generation.Span

/-!
# The arrangement that a shuffle makes

The calls of a shuffle come to a place for each position of the list, and the place is at or
below the position (`Swaps`). A choice of places arranges the positions of a list by one swap
after the other, whatever the entries are (`shuffle_ofFn`).

Every permutation of the positions comes of exactly one choice of places
(`arrangement_bijective`). The swap of the last position decides what comes to it, since no
later swap touches it, so the places can be read off the permutation from the last one down,
and there are as many choices as permutations. It follows that the first entries of a list come
to each set of as many positions equally often (`card_landing_eq`).
-/

namespace PasswordPolicy

/-- A place at or below each position of a list, to swap the position with. The first position
has one place only. -/
abbrev Swaps (n : Nat) : Type := (i : Fin n) → Fin (i + 1)

namespace Swaps

variable {n : Nat}

/-- A permutation of the positions below the last, as one of all positions. -/
def keepLast (σ : Equiv.Perm (Fin n)) : Equiv.Perm (Fin (n + 1)) :=
  finSuccEquivLast.symm.permCongr σ.optionCongr

@[simp] theorem keepLast_castSucc (σ : Equiv.Perm (Fin n)) (i : Fin n) :
    keepLast σ i.castSucc = (σ i).castSucc := by
  simp [keepLast, Equiv.permCongr_apply]

@[simp] theorem keepLast_last (σ : Equiv.Perm (Fin n)) :
    keepLast σ (Fin.last n) = Fin.last n := by
  simp [keepLast, Equiv.permCongr_apply]

theorem keepLast_injective : Function.Injective (keepLast (n := n)) :=
  (Equiv.injective _).comp Equiv.optionCongr_injective

/-- Which entry comes to each position of a list when the positions have been swapped with their
places, from the last position down. -/
def arrangement : {n : Nat} → Swaps n → Equiv.Perm (Fin n)
  | 0, _ => 1
  | n + 1, js =>
    Equiv.swap (Fin.last n) (js (Fin.last n)) * keepLast (arrangement fun i => js i.castSucc)

/-- The first swap brings an entry to the last position, and no other swap moves it. -/
theorem arrangement_last (js : Swaps (n + 1)) :
    js.arrangement (Fin.last n) = js (Fin.last n) := by
  simp [arrangement]

theorem arrangement_injective : Function.Injective (arrangement (n := n)) := by
  induction n with
  | zero => exact Function.injective_of_subsingleton _
  | succ n ih =>
      intro js ks h
      have hlast : js (Fin.last n) = ks (Fin.last n) := by
        rw [← arrangement_last js, h, arrangement_last ks]
      rw [arrangement, arrangement, hlast] at h
      have hbelow := ih (keepLast_injective (mul_left_cancel h))
      funext i
      induction i using Fin.lastCases with
      | last => exact hlast
      | cast i => exact congrFun hbelow i

theorem card_eq (n : Nat) : Fintype.card (Swaps n) = n.factorial := by
  rw [Fintype.card_pi]
  simp only [Fintype.card_fin]
  rw [Fin.prod_univ_eq_prod_range (fun i => i + 1), Finset.prod_range_add_one_eq_factorial]

/-- Every permutation of the positions comes of exactly one choice of places. -/
theorem arrangement_bijective (n : Nat) : Function.Bijective (arrangement (n := n)) := by
  refine (Fintype.bijective_iff_injective_and_card _).2 ⟨arrangement_injective, ?_⟩
  rw [card_eq, Fintype.card_perm, Fintype.card_fin]

/-- The positions that the first entries of a list come to. -/
def landing (js : Swaps n) (m : Nat) : Finset (Fin n) :=
  Finset.univ.filter fun k => (js.arrangement k : Nat) < m

/-- The first entries of a list come to each set of as many positions equally often. -/
theorem card_landing_eq (places : Finset (Fin n)) :
    (Finset.univ.filter fun js : Swaps n => js.landing places.card = places).card =
      places.card.factorial * (n - places.card).factorial := by
  have hcount := Numbering.card_prefixed places
  rw [Fintype.card_fin n] at hcount
  rw [← hcount]
  -- A permutation is a numbering of the positions, in which the set comes first.
  let number (js : Swaps n) : Numbering (Fin n) :=
    js.arrangement.trans (finCongr (Fintype.card_fin n).symm)
  have hnumber : Function.Bijective number :=
    (Equiv.equivCongr (Equiv.refl _) (finCongr (Fintype.card_fin n).symm)).bijective.comp
      (arrangement_bijective n)
  refine Finset.card_bijective number hnumber ?_
  intro js
  have hlanding : js.landing places.card = places ↔ (number js).IsPrefix places := by
    rw [Finset.ext_iff]
    refine forall_congr' fun k => ?_
    rw [landing, Finset.mem_filter, and_iff_right (Finset.mem_univ k)]
    exact iff_comm
  rw [Finset.mem_filter, and_iff_right (Finset.mem_univ js), hlanding, Numbering.mem_prefixed]

end Swaps

variable {α : Type} {n : Nat}

/-- A swap of two entries of a list composes the list with the swap of their positions. -/
theorem swapIfInBounds_ofFn (g : Fin n → α) (tail : List α) (i j : Fin n) :
    (List.ofFn g ++ tail).toArray.swapIfInBounds i j =
      (List.ofFn (g ∘ Equiv.swap i j) ++ tail).toArray := by
  have hsize : ∀ k : Fin n, k < (List.ofFn g ++ tail).toArray.size := by
    intro k
    rw [List.size_toArray, List.length_append, List.length_ofFn]
    exact Nat.lt_add_right _ k.isLt
  rw [Array.swapIfInBounds_def, dif_pos (hsize i), dif_pos (hsize j)]
  apply Array.ext
  · simp
  · intro k hk hk'
    rw [Array.getElem_swap]
    by_cases hkn : k < n
    · simp only [List.getElem_toArray, List.getElem_append, List.length_ofFn, List.getElem_ofFn,
        hkn, i.isLt, j.isLt, dif_pos, Function.comp_apply, Equiv.swap_apply_def, Fin.ext_iff]
      split_ifs <;> rfl
    · have hi : k ≠ i := by omega
      have hj : k ≠ j := by omega
      simp [List.getElem_append, hkn, hi, hj]

/-- The entry at the last position joins those above. -/
theorem ofFn_succ_append (g : Fin (n + 1) → α) (tail : List α) :
    List.ofFn g ++ tail =
      List.ofFn (fun i : Fin n => g i.castSucc) ++ g (Fin.last n) :: tail := by
  rw [List.ofFn_succ', List.concat_eq_append, List.append_assoc, List.singleton_append]

namespace Source

/-- The places that the calls of a shuffle come to. The call for the last position is the first
one, and none is made for the first position. -/
def swaps (s : Source) (n : Nat) : Swaps n :=
  fun i => ((s.skip (n - 1 - i)).below (Nat.succ_pos i)).1

theorem swaps_last (s : Source) (n : Nat) :
    s.swaps (n + 1) (Fin.last n) = (s.below (Nat.succ_pos n)).1 := by
  have hcall : n + 1 - 1 - (Fin.last n : Nat) = 0 := Nat.sub_self n
  rw [swaps, hcall]
  rfl

/-- The calls after the first one are those for the positions below the last. -/
theorem swaps_advance (s : Source) (n : Nat) :
    s.advance.swaps n = fun i : Fin n => s.swaps (n + 1) i.castSucc := by
  funext i
  have hcall : 1 + (n - 1 - i) = n + 1 - 1 - i := by omega
  have hskip : s.advance.skip (n - 1 - i) = s.skip (n + 1 - 1 - i) := by
    rw [← skip_one, skip_skip, hcall]
  rw [swaps, hskip]
  rfl

/-- The arrangement of a shuffle begins with the swap of the last position. -/
theorem arrangement_swaps_succ (s : Source) (n : Nat) :
    (s.swaps (n + 1)).arrangement =
      Equiv.swap (Fin.last n) (s.below (Nat.succ_pos n)).1 *
        Swaps.keepLast (s.advance.swaps n).arrangement := by
  rw [Swaps.arrangement, swaps_last, swaps_advance]

/-- The swaps of a shuffle from a position down arrange the entries up to it. -/
theorem shuffleFrom_ofFn (g : Fin (n + 1) → α) (tail : List α) (s : Source) :
    shuffleFrom n (List.ofFn g ++ tail).toArray s =
      ((List.ofFn (g ∘ (s.swaps (n + 1)).arrangement) ++ tail).toArray, s.skip n) := by
  induction n generalizing s tail with
  | zero =>
      rw [Subsingleton.elim (s.swaps 1).arrangement 1]
      rfl
  | succ n ih =>
      rw [arrangement_swaps_succ]
      have hpos : 0 < n + 1 + 1 := Nat.succ_pos (n + 1)
      have hswap := swapIfInBounds_ofFn g tail (Fin.last (n + 1)) (s.below hpos).1
      rw [Fin.val_last] at hswap
      generalize hσ : Equiv.swap (Fin.last (n + 1)) (s.below hpos).1 = σ at hswap ⊢
      generalize hτ : (s.advance.swaps (n + 1)).arrangement = τ
      calc
        shuffleFrom (n + 1) (List.ofFn g ++ tail).toArray s =
            shuffleFrom n (List.ofFn (g ∘ σ) ++ tail).toArray s.advance := by
          rw [← hswap]
          rfl
        _ = ((List.ofFn ((fun i : Fin (n + 1) => g (σ i.castSucc)) ∘ τ) ++
              g (σ (Fin.last (n + 1))) :: tail).toArray, s.advance.skip n) := by
          rw [ofFn_succ_append, ih, hτ]
          rfl
        _ = ((List.ofFn (g ∘ (σ * Swaps.keepLast τ)) ++ tail).toArray, s.skip (n + 1)) := by
          rw [ofFn_succ_append (g ∘ (σ * Swaps.keepLast τ)), ← skip_one, skip_skip, Nat.add_comm 1]
          simp [Function.comp_def]

/-- A shuffle arranges a list by the places that its calls come to, whatever the entries. -/
theorem shuffle_ofFn (g : Fin n → α) (s : Source) :
    s.shuffle (List.ofFn g) = (List.ofFn (g ∘ (s.swaps n).arrangement), s.skip (n - 1)) := by
  cases n with
  | zero => rfl
  | succ n =>
      have harranged := shuffleFrom_ofFn g [] s
      rw [List.append_nil, List.append_nil] at harranged
      rw [shuffle, List.length_ofFn, Nat.add_sub_cancel, harranged]

/-- A source gives the places that come next as its numbers, from the last position down. -/
theorem swaps_of_begins {s : Source} {js : Swaps n}
    (hs : s.Begins (List.ofFn fun i => (js i : Nat)).reverse) : s.swaps n = js := by
  rw [begins_iff_forall] at hs
  funext i
  have hcall : n - 1 - i < (List.ofFn fun i => (js i : Nat)).reverse.length := by
    rw [List.length_reverse, List.length_ofFn]
    omega
  have hposition : n - 1 - (n - 1 - i) = i := by omega
  have hnext := hs (n - 1 - i) hcall
  simp only [List.getElem_reverse, List.length_ofFn, List.getElem_ofFn, hposition] at hnext
  apply Fin.ext
  rw [swaps, below_fst_val]
  change s.value (s.calls + (n - 1 - i)) % (i + 1) = js i
  rw [hnext, Nat.mod_eq_of_lt (js i).isLt]

/-- Whatever numbers come before, a source can go on to every choice of places. -/
theorem exists_swaps_eq (us : List Nat) (js : Swaps n) :
    ∃ s : Source, s.Begins us ∧ (s.skip us.length).swaps n = js := by
  obtain ⟨hus, hjs⟩ := (begins_append _ us _).1
    (begins_cycle (us ++ (List.ofFn fun i => (js i : Nat)).reverse))
  exact ⟨_, hus, swaps_of_begins hjs⟩

end Source

end PasswordPolicy
