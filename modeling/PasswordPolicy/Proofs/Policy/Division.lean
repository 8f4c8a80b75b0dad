import PasswordPolicy.Policy.Reader
import PasswordPolicy.Proofs.Fallible
import PasswordPolicy.Proofs.Text.Pieces

/-!
# The division of a text by its pieces

The pass that divides the text of a policy does the same as cutting the text at its double
slashes first. The first piece is the length, and each later one is cut at its first bar
(`divide_eq`). The induction is on the text: `Phase.resume` says what a phase makes of the
pieces that are still to come, where what it has seen is put before the first of them.

So a division that succeeds gives the pieces of the rules in two parts each
(`divide_eq_ok_iff`), and one that fails reports the first of them that has no bar
(`divide_eq_error_iff`).
-/

namespace PasswordPolicy

namespace Policy

open Text

/-- The parts of a rule that is a piece of its own. -/
def partsOf (u : Text) : Except Error (Text × Text) :=
  match cutAt? '|' u with
  | some r => .ok r
  | none => .error (.malformedRule (if u = [] then separator else u))

/-- The parts of the rules, each of them a piece. After the last separator there may be
nothing. -/
def partsOfAll : List Text → Except Error (List (Text × Text))
  | [] => .ok []
  | [[]] => .ok []
  | u :: us => do
    let r ← partsOf u
    let rs ← partsOfAll us
    return r :: rs

variable {u r a t : Text} {us : List Text} {e : Error}

theorem partsOf_append (h : '|' ∉ r) : partsOf (r ++ '|' :: a) = .ok (r, a) := by
  rw [partsOf, cutAt?_eq_some_iff.2 ⟨rfl, h⟩]

theorem partsOf_of_not_mem (h : '|' ∉ u) :
    partsOf u = .error (.malformedRule (if u = [] then separator else u)) := by
  rw [partsOf, cutAt?_eq_none_iff.2 h]

theorem partsOfAll_cons (h : u = [] → us ≠ []) :
    partsOfAll (u :: us) = (do
      let r ← partsOf u
      let rs ← partsOfAll us
      return r :: rs) := by
  rw [partsOfAll]
  intro hu hus
  exact h hu hus

theorem partsOfAll_append (h : '|' ∉ r) :
    partsOfAll ((r ++ '|' :: a) :: us) = (partsOfAll us).map ((r, a) :: ·) := by
  rw [partsOfAll_cons (by simp), partsOf_append h]
  rfl

theorem partsOfAll_of_not_mem (hu : u = [] → us ≠ []) (h : '|' ∉ u) :
    partsOfAll (u :: us) = .error (.malformedRule (if u = [] then separator else u)) := by
  rw [partsOfAll_cons hu, partsOf_of_not_mem h]
  rfl

theorem strayPart_eq (seen : Text) :
    strayPart seen = if seen.reverse = [] then separator else seen.reverse := by
  simp [strayPart]

/-- Whether no bar has been taken for a part of a range. -/
def Phase.IsBarFree : Phase → Prop
  | range _ _ seen => '|' ∉ seen
  | _ => True

theorem Phase.isBarFree_range {n : Text} {rules : List (Text × Text)} {seen : Text} :
    (range n rules seen).IsBarFree ↔ '|' ∉ seen.reverse := by
  simp [IsBarFree]

/-- The division that a phase comes to with the pieces still to come. -/
def Phase.resume : Phase → Text → List Text → Except Error Division
  | length seen, u, us => (partsOfAll us).map fun rs => ⟨seen.reverse ++ u, rs⟩
  | range n rules seen, u, us =>
    (partsOfAll ((seen.reverse ++ u) :: us)).map fun rs => ⟨n, rules.reverse ++ rs⟩
  | alphabet n rules r seen, u, us =>
    (partsOfAll us).map fun rs => ⟨n, rules.reverse ++ (r, seen.reverse ++ u) :: rs⟩

theorem exists_pieces_cons {c : Char} (hc : ∀ v, c = '/' → t ≠ '/' :: v)
    (h : pieces (c :: t) = u :: us) : ∃ v, pieces t = v :: us ∧ u = c :: v := by
  obtain ⟨v, vs, hv⟩ := List.exists_cons_of_ne_nil (pieces_ne_nil t)
  rw [pieces_cons hc, hv, List.modifyHead_cons] at h
  obtain ⟨rfl, rfl⟩ := List.cons.inj h
  exact ⟨v, hv, rfl⟩

theorem exists_pieces_slashes (h : pieces ('/' :: '/' :: t) = u :: us) :
    ∃ v vs, pieces t = v :: vs ∧ u = [] ∧ us = v :: vs := by
  obtain ⟨v, vs, hv⟩ := List.exists_cons_of_ne_nil (pieces_ne_nil t)
  rw [pieces_slashes, hv] at h
  obtain ⟨rfl, rfl⟩ := List.cons.inj h
  exact ⟨v, vs, hv, rfl, rfl⟩

theorem Phase.divide_eq_resume {ph : Phase} (hbar : ph.IsBarFree) (h : pieces t = u :: us) :
    ph.divide t = ph.resume u us := by
  fun_induction Phase.divide ph t generalizing u us with
  | case1 seen =>
      obtain ⟨rfl, rfl⟩ := List.cons.inj h
      simp [resume, partsOfAll, Except.map]
  | case2 seen t ih =>
      obtain ⟨v, vs, hv, rfl, rfl⟩ := exists_pieces_slashes h
      rw [ih (by simp [IsBarFree]) hv]
      simp [resume]
  | case3 seen c t hc ih =>
      obtain ⟨v, hv, rfl⟩ := exists_pieces_cons hc h
      rw [ih trivial hv]
      simp [resume]
  | case4 n rules =>
      obtain ⟨rfl, rfl⟩ := List.cons.inj h
      simp [resume, partsOfAll, Except.map]
  | case5 n rules seen hseen =>
      obtain ⟨rfl, rfl⟩ := List.cons.inj h
      rw [resume, List.append_nil, partsOfAll_of_not_mem (by simpa using hseen)
        (isBarFree_range.1 hbar), strayPart_eq]
      rfl
  | case6 n rules seen t ih =>
      obtain ⟨v, hv, rfl⟩ := exists_pieces_cons (by simp) h
      rw [ih trivial hv, resume, resume, partsOfAll_append (isBarFree_range.1 hbar)]
      cases partsOfAll us <;> rfl
  | case7 n rules seen t =>
      obtain ⟨v, vs, hv, rfl, rfl⟩ := exists_pieces_slashes h
      rw [resume, List.append_nil, partsOfAll_of_not_mem (by simp)
        (isBarFree_range.1 hbar), strayPart_eq]
      rfl
  | case8 n rules seen c t hc hslashes ih =>
      obtain ⟨v, hv, rfl⟩ := exists_pieces_cons hslashes h
      rw [ih (by simpa [IsBarFree, Ne.symm hc] using hbar) hv]
      simp [resume]
  | case9 n rules r seen =>
      obtain ⟨rfl, rfl⟩ := List.cons.inj h
      simp [resume, partsOfAll, Except.map]
  | case10 n rules r seen t ih =>
      obtain ⟨v, vs, hv, rfl, rfl⟩ := exists_pieces_slashes h
      rw [ih (by simp [IsBarFree]) hv]
      simp [resume]
  | case11 n rules r seen c t hc ih =>
      obtain ⟨v, hv, rfl⟩ := exists_pieces_cons hc h
      rw [ih trivial hv]
      simp [resume]

theorem divide_eq (h : pieces t = u :: us) :
    divide t = (partsOfAll us).map fun rs => ⟨u, rs⟩ :=
  Phase.divide_eq_resume trivial h

/-- The pieces of the rules among those after the first piece. After the last separator there
may be nothing. -/
def rulePieces (us : List Text) : List Text :=
  if us.getLast? = some [] then us.dropLast else us

theorem rulePieces_of_getLast? (h : us.getLast? ≠ some []) : rulePieces us = us := if_neg h

theorem rulePieces_of_bar (h : ∀ g ∈ us, '|' ∈ g) : rulePieces us = us := by
  refine rulePieces_of_getLast? fun hlast => ?_
  exact absurd (h [] (List.mem_of_getLast? hlast)) List.not_mem_nil

theorem rulePieces_cons (h : u = [] → us ≠ []) : rulePieces (u :: us) = u :: rulePieces us := by
  cases us with
  | nil => simpa [rulePieces] using h
  | cons v us =>
      rw [rulePieces, rulePieces, List.getLast?_cons_cons, List.dropLast_cons_cons]
      split <;> rfl

theorem partsOfAll_eq_mapM (us : List Text) : partsOfAll us = (rulePieces us).mapM partsOf := by
  fun_induction partsOfAll us with
  | case1 => rfl
  | case2 => rfl
  | case3 u us h ih =>
      rw [rulePieces_cons fun hu hus => h hu hus, List.mapM_cons, ih]

theorem partsOf_eq_ok_iff {x : Text × Text} :
    partsOf u = .ok x ↔ u = x.1 ++ '|' :: x.2 ∧ '|' ∉ x.1 := by
  rw [← cutAt?_eq_some_iff, partsOf]
  cases cutAt? '|' u <;> simp

theorem isOk_partsOf (u : Text) : (partsOf u).isOk = decide ('|' ∈ u) := by
  rw [partsOf]
  cases hcut : cutAt? '|' u with
  | none => simpa [Except.isOk, Except.toBool] using cutAt?_eq_none_iff.1 hcut
  | some x =>
      obtain ⟨rfl, -⟩ := cutAt?_eq_some_iff.1 hcut
      simp [Except.isOk, Except.toBool]

theorem divide_eq_map (h : pieces t = u :: us) :
    divide t = ((rulePieces us).mapM partsOf).map fun rs => ⟨u, rs⟩ := by
  rw [divide_eq h, partsOfAll_eq_mapM]

theorem divide_eq_ok_iff (h : pieces t = u :: us) {d : Division} :
    divide t = .ok d ↔ d.length = u ∧
      List.Forall₂ (fun g x => g = x.1 ++ '|' :: x.2 ∧ '|' ∉ x.1) (rulePieces us) d.rules := by
  simp only [divide_eq_map h, map_eq_ok_iff, mapM_eq_ok_iff, partsOf_eq_ok_iff]
  constructor
  · rintro ⟨xs, hxs, rfl⟩
    exact ⟨rfl, hxs⟩
  · rintro ⟨rfl, hd⟩
    exact ⟨d.rules, hd, rfl⟩

theorem divide_eq_error_iff (h : pieces t = u :: us) :
    divide t = .error e ↔ ∃ g, (rulePieces us).find? (fun g => '|' ∉ g) = some g ∧
      e = .malformedRule (if g = [] then separator else g) := by
  have hbar : (fun g => !(partsOf g).isOk) = fun g => decide ('|' ∉ g) := by
    funext g
    rw [isOk_partsOf, decide_not]
  rw [divide_eq_map h, map_eq_error_iff, mapM_eq_error_iff, hbar]
  refine exists_congr fun g => and_congr_right fun hg => ?_
  have hnot : '|' ∉ g := by simpa using List.find?_some hg
  rw [partsOf_of_not_mem hnot, Except.error.injEq, eq_comm]

/-- Where every rule has its bar the division succeeds, and nowhere else. -/
theorem exists_divide_iff (h : pieces t = u :: us) :
    (∃ d, divide t = .ok d) ↔ ∀ g ∈ rulePieces us, '|' ∈ g := by
  constructor
  · rintro ⟨d, hd⟩ g hg
    by_contra hbar
    have hsome : ((rulePieces us).find? fun g => '|' ∉ g).isSome = true :=
      List.find?_isSome.2 ⟨g, hg, decide_eq_true hbar⟩
    obtain ⟨g', hg'⟩ := Option.isSome_iff_exists.1 hsome
    cases hd.symm.trans ((divide_eq_error_iff h).2 ⟨g', hg', rfl⟩)
  · intro hbars
    cases hd : divide t with
    | ok d => exact ⟨d, rfl⟩
    | error e =>
        obtain ⟨g, hg, -⟩ := (divide_eq_error_iff h).1 hd
        have hbar := hbars g (List.mem_of_find?_eq_some hg)
        simpa [hbar] using List.find?_some hg

end Policy

end PasswordPolicy
