import PasswordPolicy.Proofs.Fallible
import PasswordPolicy.Proofs.Policy.Reading
import PasswordPolicy.Proofs.Rule.Spelling

/-!
# The grammar of policies

The text of a policy is laid out as its length, its rules with a separator before each, and
perhaps a separator at the end (`Layout`). The grammar says what the parts of a layout may
be (`Layout.IsGrammatical`), and a text is read as a policy exactly when it has a layout that
is grammatical. There is then one such layout only, and the policy is the one that it denotes
(`read_iff_isGrammatical`).

The parts of a grammatical layout are the pieces of its text between the double slashes
(`Layout.pieces_text`). This is where the condition on slashes comes from: an alphabet may
end in one only where no separator follows.
-/

namespace PasswordPolicy

namespace Policy

open Text

/-- The parts of the text of a policy: its length, the range and the alphabet of each rule,
and whether there is a separator at the end. -/
structure Layout where
  length : Text
  rules : List (Text × Text)
  isClosed : Bool

namespace Layout

/-- The text that is laid out. -/
def text (l : Layout) : Text :=
  l.length ++ l.rules.flatMap (fun x => separator ++ (x.1 ++ '|' :: x.2)) ++
    if l.isClosed then separator else []

/-- The rules after which there is more of the text. -/
def followed (l : Layout) : List (Text × Text) :=
  if l.isClosed then l.rules else l.rules.dropLast

/-- What the parts must be for their text to be that of a policy. -/
structure IsGrammatical (l : Layout) : Prop where
  length : ∃ n, Numeral.Spells l.length n
  rules : ∀ x ∈ l.rules, ∃ r, Rule.Spells x r
  not_separator : ∀ x ∈ l.rules, ¬separator <:+: x.2
  not_endsInSlash : ∀ x ∈ l.followed, x.2.getLast? ≠ some '/'

/-- The policy with the length and the rules of a layout. The rules are pushed in order, so
an alphabet stands where it comes first, with the range that it has where it comes last. -/
structure Denotes (l : Layout) (p : Policy) : Prop where
  length : Numeral.Spells l.length p.length
  rules : ∃ rs, List.Forall₂ Rule.Spells l.rules rs ∧ p.table = .ofList rs ∧
    p.rules.map Rule.alphabet = (rs.map Rule.alphabet).eraseDups ∧
    ∀ a, p.table.find? a = rs.reverse.find? (·.alphabet = a)

/-- The parts as pieces between separators. After a separator at the end there is an empty
piece. -/
def pieces (l : Layout) : List Text :=
  l.length :: (l.rules.map Rule.laidOut ++ if l.isClosed then [[]] else [])

variable {l l' : Layout} {p : Policy} {rs : List Rule} {t : Text} {us : List Text}

theorem isGrammatical_iff : l.IsGrammatical ↔
    (Numeral.read? l.length).isSome = true ∧
      (∀ x ∈ l.rules, (Rule.readParts x.1 x.2).isOk = true ∧ hasDoubleSlash x.2 = false) ∧
      ∀ x ∈ l.followed, x.2.getLast? ≠ some '/' := by
  constructor
  · rintro ⟨⟨n, hlength⟩, hrules, hseparator, hslash⟩
    refine ⟨Option.isSome_of_mem (Numeral.read?_eq_some_iff.2 hlength), ?_, hslash⟩
    intro x hx
    obtain ⟨r, hr⟩ := hrules x hx
    exact ⟨by rw [Rule.readParts_eq_ok_iff_spells.2 hr]; rfl,
      hasDoubleSlash_eq_false_iff.2 (hseparator x hx)⟩
  · rintro ⟨hlength, hrules, hslash⟩
    obtain ⟨n, hn⟩ := Option.isSome_iff_exists.1 hlength
    refine ⟨⟨n, Numeral.read?_eq_some_iff.1 hn⟩, ?_, ?_, hslash⟩
    · intro x hx
      have hok := (hrules x hx).1
      cases hr : Rule.readParts x.1 x.2 with
      | error e => simp [hr, Except.isOk, Except.toBool] at hok
      | ok r => exact ⟨r, Rule.readParts_eq_ok_iff_spells.1 hr⟩
    · intro x hx
      exact hasDoubleSlash_eq_false_iff.1 (hrules x hx).2

instance : DecidablePred IsGrammatical := fun _ => decidable_of_iff _ isGrammatical_iff.symm

theorem text_eq_joined (l : Layout) : l.text = joined Policy.separator l.pieces := by
  rw [pieces, joined_cons_eq_append, text, List.flatMap_append, List.flatMap_map,
    List.append_assoc]
  cases l.isClosed with
  | false => rfl
  | true => rfl

theorem mem_rules_of_mem_followed {x : Text × Text} (h : x ∈ l.followed) : x ∈ l.rules := by
  rw [followed] at h
  split at h
  · exact h
  · exact List.dropLast_subset _ h

theorem dropLast_pieces (h : l.rules ≠ [] ∨ l.isClosed = true) :
    l.pieces.dropLast = l.length :: l.followed.map Rule.laidOut := by
  rw [pieces, followed]
  cases hclosed : l.isClosed with
  | false =>
      have hrules : l.rules ≠ [] := by simpa [hclosed] using h
      rw [if_neg (by simp), if_neg (by simp), List.append_nil, List.map_dropLast,
        List.dropLast_cons_of_ne_nil (by simpa using hrules)]
  | true =>
      rw [if_pos rfl, if_pos rfl, ← List.cons_append, List.dropLast_concat]

/-- The parts of a grammatical layout are pieces as a cut from the left leaves them. -/
theorem IsGrammatical.isCut_pieces (h : l.IsGrammatical) : IsCut l.pieces where
  ne_nil := by simp [pieces]
  not_hasDoubleSlash := by
    obtain ⟨n, hlength⟩ := h.length
    have hdigits : '/' ∉ l.length := fun hc => absurd (hlength.isDigit _ hc) (by decide)
    rw [pieces, List.forall_mem_cons, List.forall_mem_append]
    refine ⟨hasDoubleSlash_of_not_mem hdigits, ?_, ?_⟩
    · intro q hq
      obtain ⟨x, hx, rfl⟩ := List.mem_map.1 hq
      obtain ⟨r, hr⟩ := h.rules x hx
      rw [Rule.hasDoubleSlash_laidOut hr.slash_not_mem, hasDoubleSlash_eq_false_iff]
      exact h.not_separator x hx
    · cases l.isClosed with
      | false => simp
      | true => simp [hasDoubleSlash]
  not_endsInSlash := by
    obtain ⟨n, hlength⟩ := h.length
    by_cases hmore : l.rules ≠ [] ∨ l.isClosed = true
    · rw [dropLast_pieces hmore, List.forall_mem_cons]
      refine ⟨?_, ?_⟩
      · intro hlast
        exact absurd (hlength.isDigit _ (List.mem_of_getLast? hlast)) (by decide)
      · intro q hq
        obtain ⟨x, hx, rfl⟩ := List.mem_map.1 hq
        rw [Ne, Rule.getLast?_laidOut_iff]
        exact h.not_endsInSlash x hx
    · simp only [not_or, ne_eq, not_not, Bool.not_eq_true] at hmore
      simp [pieces, hmore.1, hmore.2]

/-- The parts of a grammatical layout are the pieces of its text. -/
theorem pieces_text (h : l.IsGrammatical) : Text.pieces l.text = l.pieces := by
  rw [text_eq_joined]
  exact pieces_joined h.isCut_pieces

theorem standFor_of_forall₂ {xs : List (Text × Text)} (h : List.Forall₂ Rule.Spells xs rs)
    (isClosed : Bool) :
    StandFor (xs.map Rule.laidOut ++ if isClosed then [[]] else []) rs := by
  induction h with
  | nil =>
      cases isClosed with
      | false => exact .nil
      | true => exact .separator
  | @cons x r xs rs hx _ ih => exact .cons (Rule.read_eq_ok_iff.2 ⟨x, rfl, hx⟩) ih

theorem exists_laidOut_of_standFor (h : StandFor us rs) :
    ∃ (xs : List (Text × Text)) (isClosed : Bool),
      us = xs.map Rule.laidOut ++ (if isClosed then [[]] else []) ∧
        ∀ x ∈ xs, ∃ r, Rule.Spells x r := by
  induction h with
  | nil => exact ⟨[], false, rfl, by simp⟩
  | separator => exact ⟨[], true, rfl, by simp⟩
  | @cons u r us rs hr _ ih =>
      obtain ⟨x, rfl, hx⟩ := Rule.read_eq_ok_iff.1 hr
      obtain ⟨xs, isClosed, rfl, hxs⟩ := ih
      exact ⟨x :: xs, isClosed, rfl, List.forall_mem_cons.2 ⟨⟨r, hx⟩, hxs⟩⟩

/-- Parts that spell a length and rules, and are pieces as a cut leaves them, are
grammatical. -/
theorem isGrammatical_of_isCut {n : Nat} (hlength : Numeral.Spells l.length n)
    (hrules : ∀ x ∈ l.rules, ∃ r, Rule.Spells x r) (hcut : IsCut l.pieces) :
    l.IsGrammatical where
  length := ⟨n, hlength⟩
  rules := hrules
  not_separator := by
    intro x hx
    obtain ⟨r, hr⟩ := hrules x hx
    have hpiece : Rule.laidOut x ∈ l.pieces := by
      rw [pieces]
      exact List.mem_cons_of_mem _ (List.mem_append_left _ (List.mem_map_of_mem hx))
    refine hasDoubleSlash_eq_false_iff.1 ?_
    rw [← Rule.hasDoubleSlash_laidOut hr.slash_not_mem]
    exact hcut.not_hasDoubleSlash _ hpiece
  not_endsInSlash := by
    intro x hx
    have hmore : l.rules ≠ [] := List.ne_nil_of_mem (mem_rules_of_mem_followed hx)
    have hends := hcut.not_endsInSlash
    rw [dropLast_pieces (Or.inl hmore)] at hends
    rw [Ne, ← Rule.getLast?_laidOut_iff]
    exact hends _ (List.mem_cons_of_mem _ (List.mem_map_of_mem hx))

/-- The text of a grammatical layout is read as the policy that it denotes. -/
theorem IsGrammatical.exists_read (h : l.IsGrammatical) :
    ∃ p, read l.text = .ok p ∧ l.Denotes p := by
  obtain ⟨n, hlength⟩ := h.length
  obtain ⟨rs, hrs⟩ := exists_forall₂ h.rules
  refine ⟨⟨n, .ofList rs⟩, ?_, hlength, rs, hrs, rfl, ?_, ?_⟩
  · refine (read_eq_ok_iff (pieces_text h)).2 ⟨Numeral.read?_eq_some_iff.2 hlength, rs, ?_, rfl⟩
    exact standFor_of_forall₂ hrs l.isClosed
  · exact RuleTable.map_alphabet_ofList rs
  · exact RuleTable.find?_ofList rs

/-- What is read as a policy has a grammatical layout. -/
theorem exists_isGrammatical_of_read (h : read t = .ok p) :
    ∃ l : Layout, l.IsGrammatical ∧ l.text = t := by
  obtain ⟨u, us, hu⟩ := List.exists_cons_of_ne_nil (pieces_ne_nil t)
  obtain ⟨hlength, rs, hrs, -⟩ := (read_eq_ok_iff hu).1 h
  obtain ⟨xs, isClosed, rfl, hxs⟩ := exists_laidOut_of_standFor hrs
  have hpieces : Text.pieces t = (Layout.mk u xs isClosed).pieces := hu
  refine ⟨⟨u, xs, isClosed⟩, ?_, ?_⟩
  · refine isGrammatical_of_isCut (Numeral.read?_eq_some_iff.1 hlength) hxs ?_
    rw [← hpieces]
    exact Text.isCut_pieces t
  · rw [text_eq_joined, ← hpieces]
    exact joined_pieces t

/-- The rules of a layout are its pieces that can be cut at a bar. -/
theorem filterMap_cutAt?_pieces (h : l.IsGrammatical) :
    l.pieces.tail.filterMap (cutAt? '|') = l.rules := by
  have hcut : ∀ x ∈ l.rules, (cutAt? '|' ∘ Rule.laidOut) x = some x := by
    intro x hx
    obtain ⟨r, hr⟩ := h.rules x hx
    exact Rule.cutAt?_laidOut hr.bar_not_mem
  have hrules : (l.rules.map Rule.laidOut).filterMap (cutAt? '|') = l.rules := by
    rw [List.filterMap_map, List.filterMap_congr (g := some) hcut, List.filterMap_some]
  rw [pieces, List.tail_cons, List.filterMap_append, hrules]
  cases l.isClosed with
  | false => simp
  | true => simp [cutAt?_nil]

theorem nil_mem_pieces_iff (h : l.IsGrammatical) : [] ∈ l.pieces ↔ l.isClosed = true := by
  obtain ⟨n, hlength⟩ := h.length
  rw [pieces, List.mem_cons, List.mem_append, List.mem_map]
  cases l.isClosed with
  | false => simp [Rule.laidOut_ne_nil, hlength.ne_nil.symm]
  | true => simp

/-- A text has at most one grammatical layout. -/
theorem IsGrammatical.eq_of_text_eq (h : l.IsGrammatical) (h' : l'.IsGrammatical)
    (ht : l.text = l'.text) : l = l' := by
  have hpieces : l.pieces = l'.pieces := by
    rw [← pieces_text h, ht, pieces_text h']
  have hlength : l.length = l'.length := (List.cons.inj hpieces).1
  have hrules : l.rules = l'.rules := by
    rw [← filterMap_cutAt?_pieces h, hpieces, filterMap_cutAt?_pieces h']
  have hclosed : l.isClosed = l'.isClosed := by
    rw [Bool.eq_iff_iff, ← nil_mem_pieces_iff h, hpieces, nil_mem_pieces_iff h']
  cases l
  cases l'
  simp_all

end Layout

/-- A text is read as a policy exactly when it has a grammatical layout. That is its only
one, and the policy is what it denotes. -/
theorem read_iff_isGrammatical (t : Text) :
    ((∃ p, read t = .ok p) ↔ ∃ l : Layout, l.IsGrammatical ∧ l.text = t) ∧
      ∀ l : Layout, l.IsGrammatical → l.text = t →
        (∀ l' : Layout, l'.IsGrammatical → l'.text = t → l' = l) ∧
          ∃ p, read t = .ok p ∧ l.Denotes p := by
  refine ⟨⟨?_, ?_⟩, ?_⟩
  · rintro ⟨p, hp⟩
    exact Layout.exists_isGrammatical_of_read hp
  · rintro ⟨l, hl, rfl⟩
    obtain ⟨p, hp, -⟩ := hl.exists_read
    exact ⟨p, hp⟩
  · rintro l hl rfl
    exact ⟨fun l' hl' ht => hl'.eq_of_text_eq hl ht, hl.exists_read⟩

/-- A layout with leading zeros, blanks around a range, an alphabet with a bar and a slash in
it that comes again, and a separator at the end. -/
def namedAgain : Layout :=
  ⟨['0', '7'], [([' ', '1', '-', '3', ' '], ['a', '|', '/', 'b']),
    (['2'], ":upper:".toList), (['0', '4', '+'], ['a', '|', '/', 'b'])], true⟩

theorem read_iff_isGrammatical_namedAgain :
    namedAgain.IsGrammatical ∧
      namedAgain.text = "07// 1-3 |a|/b//2|:upper://04+|a|/b//".toList ∧
      (∀ l' : Layout, l'.IsGrammatical → l'.text = namedAgain.text → l' = namedAgain) ∧
      ∃ p, read namedAgain.text = .ok p ∧ namedAgain.Denotes p := by
  have h : namedAgain.IsGrammatical := by decide
  exact ⟨h, by decide, (read_iff_isGrammatical namedAgain.text).2 namedAgain h rfl⟩

end Policy

end PasswordPolicy
