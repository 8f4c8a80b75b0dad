import Mathlib.Data.List.Perm.Basic
import PasswordPolicy.Proofs.Generation.Span

/-!
# The range of a shuffle

A shuffle comes to every permutation of a list (`spans_shuffle`). The pass of swaps goes
from the last position down, and a swap brings any of the entries that are left into the
position (`swapIfInBounds_concat`), which no later swap touches. So the range of the
swaps from a position down is found by induction on the position: the entries above it
stand, and those up to it are permuted.
-/

namespace PasswordPolicy

open Source

variable {α : Type}

/-- A swap with the position after `us` brings the entry at `j` there, and puts the entry
that was there into the place of the other. -/
theorem swapIfInBounds_concat {us : List α} {z y : α} {j : Nat}
    (hj : (us ++ [z])[j]? = some y) (tail : List α) :
    (us ++ [z] ++ tail).toArray.swapIfInBounds us.length j =
      (us.set j z ++ y :: tail).toArray := by
  obtain ⟨hlt, rfl⟩ := List.getElem?_eq_some_iff.1 hj
  have hlast : us.length < (us ++ [z] ++ tail).toArray.size := by simp
  have hplace : j < (us ++ [z] ++ tail).toArray.size := by
    rw [List.size_toArray, List.length_append]
    exact Nat.lt_add_right _ hlt
  rw [Array.swapIfInBounds_def, dif_pos hlast, dif_pos hplace]
  apply Array.toList_inj.1
  rw [Array.toList_swap]
  apply List.ext_getElem
  · simp
  · intro k hk hk'
    grind

/-- What is left after a swap and what was brought to the end are the entries there
were. -/
theorem set_concat_perm {us : List α} {z y : α} {j : Nat} (hj : (us ++ [z])[j]? = some y) :
    (us.set j z ++ [y]).Perm (us ++ [z]) := by
  by_cases hlt : j < us.length
  · have hy : us[j] = y := by
      rw [List.getElem?_append_left hlt, List.getElem?_eq_getElem hlt] at hj
      exact Option.some.inj hj
    have hset : (us.set j z).Perm (z :: us.eraseIdx j) := List.set_perm_cons_eraseIdx hlt z
    have hall : (y :: us.eraseIdx j).Perm us := hy ▸ List.getElem_cons_eraseIdx_perm hlt
    have hswap : (z :: us.eraseIdx j ++ [y]).Perm (z :: us) :=
      (List.perm_append_singleton y _).trans ((List.Perm.swap z y _).trans (hall.cons z))
    exact (hset.append_right [y]).trans
      (hswap.trans (List.perm_append_singleton z us).symm)
  · have hend : j = us.length := by
      have hbound := (List.getElem?_eq_some_iff.1 hj).1
      rw [List.length_append, List.length_singleton] at hbound
      exact Nat.le_antisymm (Nat.le_of_lt_succ hbound) (Nat.le_of_not_lt hlt)
    have hy : z = y := by simpa [hend] using hj
    rw [List.set_eq_of_length_le (Nat.le_of_not_lt hlt), hy]

/-- The swaps from a position down permute the entries up to it in every way. -/
theorem spans_shuffleFrom (i : Nat) (us tail : List α) (hl : us.length = i + 1) :
    Spans (shuffleFrom i (us ++ tail).toArray) (fun ys s => ((ys ++ tail).toArray, s)) i
      (fun ys => ys.Perm us) := by
  induction i generalizing us tail with
  | zero =>
      obtain ⟨x, rfl⟩ := List.length_eq_one_iff.1 hl
      refine Spans.pure (x := [x]) (fun _ => rfl) ?_
      intro ys
      exact List.perm_singleton
  | succ i ih =>
      obtain ⟨us, z, rfl⟩ : ∃ vs z, us = vs ++ [z] :=
        ⟨_, _, (List.dropLast_concat_getLast (List.ne_nil_of_length_eq_add_one hl)).symm⟩
      have hus : us.length = i + 1 := by simpa using hl
      have hrest : ∀ j : Fin (i + 1 + 1), Spans
          (shuffleFrom i ((us ++ [z] ++ tail).toArray.swapIfInBounds (i + 1) j))
          (fun ys s => ((ys ++ tail).toArray, s)) i
          (fun ys => ∃ ws y, (us ++ [z])[(j : Nat)]? = some y ∧ ws.Perm (us.set j z) ∧
            ys = ws ++ [y]) := by
        intro j
        obtain ⟨y, hy⟩ : ∃ y, (us ++ [z])[(j : Nat)]? = some y :=
          ⟨_, List.getElem?_eq_getElem (hl.symm ▸ j.isLt)⟩
        have hswap := swapIfInBounds_concat hy tail
        have hlen : (us.set j z).length = i + 1 := by rw [List.length_set, hus]
        rw [hus] at hswap
        rw [hswap]
        refine ((ih (us.set j z) (y :: tail) hlen).map (φ := (· ++ [y])) ?_).congr rfl ?_
        · intro ws _ s t hws
          rw [hws, List.append_assoc, List.singleton_append]
        · intro ys
          simp [hy]
      have hstep : ∀ (j : Fin (i + 1 + 1)) (s t : Source),
          s.below (Nat.succ_pos (i + 1)) = (j, t) →
          shuffleFrom (i + 1) (us ++ [z] ++ tail).toArray s =
            shuffleFrom i ((us ++ [z] ++ tail).toArray.swapIfInBounds (i + 1) j) t := by
        intro j s t hj
        rw [shuffleFrom, hj]
      refine ((spans_below (Nat.succ_pos (i + 1))).bind (fun j _ => hrest j)
        fun j _ => hstep j).congr (Nat.add_comm 1 i) ?_
      intro ys
      constructor
      · rintro ⟨j, -, ws, y, hy, hws, rfl⟩
        exact (hws.append_right [y]).trans (set_concat_perm hy)
      · intro hys
        -- The last entry stood somewhere, and a swap with that place brings it to the end.
        obtain ⟨ws, y, rfl⟩ : ∃ ws y, ys = ws ++ [y] :=
          ⟨_, _, (List.dropLast_concat_getLast (List.ne_nil_of_length_eq_add_one
            (hys.length_eq.trans hl))).symm⟩
        have hmem : y ∈ us ++ [z] := hys.subset (by simp)
        obtain ⟨j, hj, hjy⟩ := List.getElem_of_mem hmem
        have hy : (us ++ [z])[j]? = some y := by rw [List.getElem?_eq_getElem hj, hjy]
        have hall : (ws ++ [y]).Perm (us.set j z ++ [y]) := hys.trans (set_concat_perm hy).symm
        have hws : ws.Perm (us.set j z) := (List.perm_append_right_iff [y]).1 hall
        exact ⟨⟨j, Nat.lt_of_lt_of_eq hj hl⟩, trivial, ws, y, hy, hws, rfl⟩

/-- A shuffle comes to every permutation of the list, at a price of one call for each
entry but the first. -/
theorem spans_shuffle (xs : List α) :
    Spans (fun s => s.shuffle xs) Prod.mk (xs.length - 1) (fun ys => ys.Perm xs) := by
  cases xs with
  | nil =>
      refine Spans.pure (x := []) (fun _ => rfl) ?_
      intro ys
      exact List.perm_nil
  | cons x xs =>
      have hspan := spans_shuffleFrom xs.length (x :: xs) [] rfl
      refine hspan.transfer ?_
      intro ys _ s t hys
      rw [List.append_nil, List.append_nil] at hys
      simp [shuffle, hys]

end PasswordPolicy
