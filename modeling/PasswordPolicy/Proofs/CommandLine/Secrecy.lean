import PasswordPolicy.CommandLine.Run
import PasswordPolicy.Proofs.CommandLine.Effective
import PasswordPolicy.Proofs.Generation.Password

/-!
# What a run gives away

Of what a run of the command leaves behind, only the output depends on the numbers of the
source: the exit code, the error output and the number of calls are the same for every
source (`run_discreet`). Two things come together here. An attempt to generate a password
comes to the same obstacle for every source, or else to a password at a price that the
policy fixes, with as many characters due as the rules ask for
(`Policy.attempt_cases`). And no run breaks off on the way: the overrides that arguments
give can be applied, as a negative length is a usage error (`Given.isApplicable_of_request`).
-/

namespace PasswordPolicy

namespace Policy

/-- A policy is refused for the same obstacle whatever the source, or it comes to a password
whatever the source, and then neither the price nor the number of characters due depends on
the source. -/
theorem attempt_cases (p : Policy) :
    (∃ o, ∀ s, p.attempt s = .ok (.refused o, s)) ∨
      ∀ s, ∃ w, p.attempt s = .ok (.made p.least w, s.skip p.price) := by
  cases ho : p.obstacle? with
  | some o => exact .inl ⟨o, attempt_of_obstacle ho⟩
  | none =>
    have hfeasible : p.isFeasible = true := by rw [isFeasible, ho, Option.isNone_none]
    refine .inr fun s => ?_
    obtain ⟨w, -, hw⟩ := (spans_attempt hfeasible).sound s
    exact ⟨w, hw⟩

end Policy

/-- The length that overrides give, if they give one, is not negative. -/
def Overrides.IsApplicable (o : Overrides) : Prop := ∀ n, o.length = some n → 0 ≤ n

/-- Overrides can be applied to a policy unless their length is negative. -/
theorem Policy.exists_override_eq_ok_iff {p : Policy} {o : Overrides} :
    (∃ q, p.override o = .ok q) ↔ o.IsApplicable := by
  rw [override, Overrides.IsApplicable]
  cases o.length with
  | none => simp [replaceLength, Except.map]
  | some n =>
    rcases lt_or_ge n 0 with hn | hn
    · simp [replaceLength, withLength?, checkLength, Except.map, hn]
    · simp [replaceLength, withLength?, checkLength, Except.map, hn, not_lt.2 hn]

namespace CommandLine

variable {v : Values} {g : Given} {r : Request} {environment : Option Text}

theorem nonneg_of_readLength {t : Text} {n : Int} (h : readLength t = .ok n) : 0 ≤ n := by
  rw [readLength] at h
  cases hread : Integer.read? t with
  | none => simp [hread] at h
  | some m =>
    rw [hread] at h
    by_cases hm : m < 0
    · simp [hm] at h
    · simp only [hm, if_false, Except.ok.injEq] at h
      omega

/-- A length that texts stand for is not negative. -/
theorem Values.isApplicable_of_holds {texts : List Text} (h : v.Holds texts .length) :
    v.overrides.IsApplicable := by
  intro n hn
  rw [Holds, hn, mapM_eq_ok_iff] at h
  obtain ⟨t, -, ht, -⟩ := List.forall₂_cons_right_iff.1 h
  exact nonneg_of_readLength ht

/-- The overrides of what arguments ask for can be applied. -/
theorem Given.isApplicable_of_request (h : g.request environment = .ok r) :
    r.overrides.IsApplicable := by
  rw [request] at h
  obtain ⟨v, hv, h⟩ := bind_eq_ok_iff.1 h
  obtain ⟨base, -, h⟩ := bind_eq_ok_iff.1 h
  have hholds := g.ends_readSettings
  rw [hv] at hholds
  split at h
  · cases h
  · obtain rfl := Except.ok.inj h
    exact Values.isApplicable_of_holds (hholds .length)

/-- Only the output of a procedure depends on the numbers of its source. -/
def IsDiscreet (f : Source → Except Failure Outcome) : Prop :=
  ∃ exit errors n, ∀ s, ∃ output, f s = .ok ⟨exit, output, errors, s.skip n⟩

/-- A procedure that makes no call is discreet. -/
theorem isDiscreet_of_forall {f : Source → Except Failure Outcome} {exit : Nat}
    {output errors : Text} (h : ∀ s, f s = .ok ⟨exit, output, errors, s⟩) : IsDiscreet f :=
  ⟨exit, errors, 0, fun s => ⟨output, h s⟩⟩

namespace Request

/-- What goes to the error output about a policy and an attempt to meet it. -/
def told (r : Request) (p : Policy) (a : Attempt) : Text :=
  (if r.showPolicy then shownPolicy p else []) ++ if r.verbose then account p a else []

/-- What is told does not tell the password. -/
theorem told_made (r : Request) (p : Policy) (due : Nat) (w w' : Text) :
    r.told p (.made due w) = r.told p (.made due w') := rfl

/-- A run whose overrides apply ends as its attempt to generate a password does. -/
theorem run_eq {p : Policy} {a : Attempt} {s s' : Source}
    (hp : r.base.override r.overrides = .ok p) (ha : p.attempt s = .ok (a, s')) :
    r.run s = .ok (.ofAttempt (r.told p a) s' a) := by
  rw [run, bind_eq_ok_iff]
  refine ⟨p, by rw [hp]; rfl, bind_eq_ok_iff.2 ⟨(a, s'), ?_, rfl⟩⟩
  rw [ha]
  rfl

theorem isDiscreet_run (h : r.overrides.IsApplicable) : IsDiscreet r.run := by
  obtain ⟨p, hp⟩ := Policy.exists_override_eq_ok_iff.2 h
  rcases p.attempt_cases with ⟨o, ho⟩ | hmade
  · exact isDiscreet_of_forall fun s => run_eq hp (ho s)
  · refine ⟨0, r.told p (.made p.least []), p.price, ?_⟩
    intro s
    obtain ⟨w, hw⟩ := hmade s
    refine ⟨echo w, ?_⟩
    rw [run_eq hp hw, told_made r p p.least w []]
    rfl

-- The output does depend on the source.
example :
    let r : Request := ⟨⟨1, .ofList [⟨.exactly 1, .literal ['a', 'b']⟩]⟩, .empty, false, false⟩
    (r.run (.cycle #[0])).map Outcome.output = .ok ['a', '\n'] ∧
      (r.run (.cycle #[1])).map Outcome.output = .ok ['b', '\n'] := by
  constructor <;> cbv

end Request

theorem Given.isDiscreet_run (g : Given) (environment : Option Text) :
    IsDiscreet (g.run environment) := by
  unfold run
  cases g.notice? with
  | some n => exact isDiscreet_of_forall fun _ => rfl
  | none =>
    cases h : g.request environment with
    | error e => exact isDiscreet_of_forall fun _ => rfl
    | ok r => exact Request.isDiscreet_run (isApplicable_of_request h)

theorem isDiscreet_run (args : List Text) (environment : Option Text) :
    IsDiscreet (run args environment) := by
  unfold run
  cases Given.read args with
  | error e => exact isDiscreet_of_forall fun _ => rfl
  | ok g => exact g.isDiscreet_run environment

/-- Two runs with the same arguments and the same policy text in the environment come to an
end with the same exit code, the same error output and as many calls, whatever their
sources. -/
theorem run_discreet (args : List Text) (environment : Option Text) (s s' : Source) :
    ∃ o o', run args environment s = .ok o ∧ run args environment s' = .ok o' ∧
      o.exit = o'.exit ∧ o.errors = o'.errors ∧
        ∃ n, o.source = s.skip n ∧ o'.source = s'.skip n := by
  obtain ⟨exit, errors, n, hrun⟩ := isDiscreet_run args environment
  obtain ⟨output, hs⟩ := hrun s
  obtain ⟨output', hs'⟩ := hrun s'
  exact ⟨_, _, hs, hs', rfl, rfl, n, rfl, rfl⟩

end CommandLine

end PasswordPolicy
