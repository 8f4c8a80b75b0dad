/-!
# Lists with keys

A list of entries with distinct keys is a finite map with a fixed order. Placing
an entry replaces the entry with its key in its position
(`map_key_place_of_mem`), or else adds the entry at the end
(`place_of_not_mem`). Looking a key up finds the entry placed last for it
(`find?_place`).
-/

namespace PasswordPolicy

namespace KeyedList

variable {α κ : Type} [DecidableEq κ] (key : α → κ)

/-- The first entry with a key, if there is one. -/
def find? (k : κ) (xs : List α) : Option α := List.find? (fun x => key x = k) xs

/-- The list with an entry in the position of the first one with the same key, or
else at the end. -/
def place (x : α) : List α → List α
  | [] => [x]
  | y :: ys => if key y = key x then x :: ys else y :: place x ys

theorem place_of_not_mem {x : α} {xs : List α} (h : key x ∉ xs.map key) :
    place key x xs = xs ++ [x] := by
  induction xs with
  | nil => rfl
  | cons y ys ih =>
    simp only [List.map_cons, List.mem_cons, not_or] at h
    rw [place, if_neg (Ne.symm h.1), ih h.2, List.cons_append]

/-- The keys stay where they are when an entry is placed on one of them. -/
theorem map_key_place_of_mem {x : α} {xs : List α} (h : key x ∈ xs.map key) :
    (place key x xs).map key = xs.map key := by
  induction xs with
  | nil => simp at h
  | cons y ys ih =>
    by_cases hy : key y = key x
    · simp [place, hy]
    · have : key x ∈ ys.map key := by simpa [Ne.symm hy] using h
      simp [place, hy, ih this]

theorem nodup_place {x : α} {xs : List α} (h : (xs.map key).Nodup) :
    ((place key x xs).map key).Nodup := by
  by_cases hx : key x ∈ xs.map key
  · rwa [map_key_place_of_mem key hx]
  · rw [place_of_not_mem key hx, List.map_append, List.nodup_append]
    refine ⟨h, by simp, fun a ha b hb => ?_⟩
    rintro rfl
    simp only [List.map_cons, List.map_nil, List.mem_singleton] at hb
    exact hx (hb ▸ ha)

theorem mem_of_mem_place {x z : α} {xs : List α} (h : z ∈ place key x xs) :
    z = x ∨ z ∈ xs := by
  induction xs with
  | nil => simpa [place] using h
  | cons y ys ih =>
    by_cases hy : key y = key x
    · simp only [place, if_pos hy, List.mem_cons] at h
      exact h.imp id (by simp +contextual)
    · simp only [place, if_neg hy, List.mem_cons] at h
      rcases h with rfl | h
      · simp
      · exact (ih h).imp id (by simp +contextual)

theorem nodup_foldl_place (xs ys : List α) (h : (ys.map key).Nodup) :
    ((xs.foldl (fun ys x => place key x ys) ys).map key).Nodup := by
  induction xs generalizing ys with
  | nil => exact h
  | cons x xs ih => exact ih _ (nodup_place key h)

theorem mem_of_mem_foldl_place {z : α} {xs ys : List α}
    (h : z ∈ xs.foldl (fun ys x => place key x ys) ys) : z ∈ ys ∨ z ∈ xs := by
  induction xs generalizing ys with
  | nil => exact .inl h
  | cons x xs ih =>
    rcases ih h with hz | hz
    · rcases mem_of_mem_place key hz with rfl | hz
      · exact .inr (List.mem_cons_self ..)
      · exact .inl hz
    · exact .inr (List.mem_cons_of_mem x hz)

theorem find?_place (x : α) (xs : List α) (k : κ) :
    find? key k (place key x xs) = if key x = k then some x else find? key k xs := by
  induction xs with
  | nil => by_cases h : key x = k <;> simp [place, find?, h]
  | cons y ys ih =>
    by_cases hy : key y = key x <;> by_cases h : key x = k <;>
      simp_all [place, find?, List.find?_cons]

/-- With distinct keys, a key finds exactly the entry with it. -/
theorem find?_eq_some_iff {xs : List α} (hd : (xs.map key).Nodup) {k : κ} {x : α} :
    find? key k xs = some x ↔ x ∈ xs ∧ key x = k := by
  constructor
  · intro h
    exact ⟨List.mem_of_find?_eq_some h, by simpa using List.find?_some h⟩
  · rintro ⟨hx, rfl⟩
    induction xs with
    | nil => simp at hx
    | cons y ys ih =>
      simp only [List.map_cons, List.nodup_cons] at hd
      rcases List.mem_cons.1 hx with rfl | hm
      · simp [find?]
      · have hne : key y ≠ key x := fun he => hd.1 (he ▸ List.mem_map_of_mem hm)
        have := ih hd.2 hm
        simp_all [find?]

end KeyedList

end PasswordPolicy
