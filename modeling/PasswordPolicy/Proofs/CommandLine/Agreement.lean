import PasswordPolicy.Proofs.CommandLine.Effective
import PasswordPolicy.Proofs.CommandLine.Secrecy
import PasswordPolicy.Proofs.CommandLine.Uses

/-!
# The command and the generation of a password

A run of the command comes to an end for every command line that asks for no notice. It ends
with 2, without an output and without a call of the source, if some value in effect cannot be
read. Else it ends as the generation of a password does for the policy that the values in effect
stand for: with 0 and the password, or with 1 and the line that says that there is none
(`run_agrees_with_generate`). So nothing else about the arguments matters, such as the order of
different settings.
-/

namespace PasswordPolicy

namespace CommandLine

variable {g g' : Given} {v v' : Values} {p p' : Policy} {environment : Option Text}

theorem echo_failureText : echo failureText = Text.line failureText :=
  Text.withoutControls_of_not_mem (by decide)

theorem Outcome.exit_ofAttempt_ne (shown : Text) (s : Source) (a : Attempt) :
    (Outcome.ofAttempt shown s a).exit ≠ 2 := by
  cases a <;> simp [ofAttempt]

theorem Outcome.source_ofAttempt (shown : Text) (s : Source) (a : Attempt) :
    (Outcome.ofAttempt shown s a).source = s := by
  cases a <;> rfl

namespace Given

/-- The values in effect stand for a policy, which is the one to start from with the overrides
applied. -/
structure Resolves (g : Given) (environment : Option Text) (v : Values) (p : Policy) : Prop where
  holds : ∀ k, v.Holds (g.effective environment k) k
  resolve_eq : Policy.resolve (g.effective environment .policy).head? v.overrides = .ok p

/-- The policy depends on the values in effect only. -/
theorem Resolves.unique (h : g.Resolves environment v p) (h' : g'.Resolves environment v' p')
    (heffective : ∀ k, g'.effective environment k = g.effective environment k) : p' = p := by
  obtain rfl : v = v' := Values.eq_of_holds h.holds fun k => heffective k ▸ h'.holds k
  have hp := h'.resolve_eq
  rw [heffective, h.resolve_eq] at hp
  exact (Except.ok.inj hp).symm

theorem Resolves.not_isRefused (h : g.Resolves environment v p) : ¬ g.IsRefused environment :=
  not_isRefused_of_holds h.holds

theorem isRefused_congr
    (heffective : ∀ k, g'.effective environment k = g.effective environment k) :
    g'.IsRefused environment ↔ g.IsRefused environment := by
  simp only [IsRefused, heffective]

/-- A run ends with a usage error, or else as an attempt to generate a password does for the
policy that the values in effect stand for. -/
theorem run_cases (hstray : g.stray = []) (hnotice : g.notice? = none)
    (environment : Option Text) (s : Source) :
    (g.IsRefused environment ∧ ∃ e, g.run environment s = .ok (.ofUsageError e s)) ∨
      ∃ (r : Request) (v : Values) (p : Policy) (a : Attempt) (s' : Source),
        r.showPolicy = g.isOn .showPolicy ∧ r.verbose = g.isOn .verbose ∧
        g.Resolves environment v p ∧ p.attempt s = .ok (a, s') ∧
        g.run environment s = .ok (.ofAttempt (r.told p a) s' a) := by
  have hrequest : Ends _ _ (g.request environment) := ends_request hstray
  cases hr : g.request environment with
  | error e =>
      rw [hr] at hrequest
      exact .inl ⟨hrequest, e, by rw [run, hnotice, hr]⟩
  | ok r =>
      rw [hr] at hrequest
      obtain ⟨v, hv, hbase, hreq⟩ := hrequest
      obtain ⟨p, hp⟩ := Policy.exists_override_eq_ok_iff.2 (isApplicable_of_request hr)
      obtain ⟨a, s', ha⟩ : ∃ a s', p.attempt s = .ok (a, s') := by
        rcases p.attempt_cases with ⟨o, ho⟩ | hmade
        · exact ⟨_, _, ho s⟩
        · obtain ⟨w, hw⟩ := hmade s
          exact ⟨_, _, hw⟩
      refine .inr ⟨r, v, p, a, s', by rw [hreq], by rw [hreq], ⟨hv, ?_⟩, ha, ?_⟩
      · rw [hreq] at hp
        exact bind_eq_ok_iff.2 ⟨r.base, hbase, hp⟩
      · rw [run, hnotice, hr]
        exact Request.run_eq hp ha

/-- Runs with the same values in effect come to the same end. The switches make a difference
for the error output only, and the order of the values for the message of a usage error. -/
theorem run_congr (hstray : g.stray = []) (hnotice : g.notice? = none)
    (hstray' : g'.stray = []) (hnotice' : g'.notice? = none)
    (heffective : ∀ k, g'.effective environment k = g.effective environment k) {s : Source}
    {o : Outcome} (ho : g.run environment s = .ok o) :
    ∃ o', g'.run environment s = .ok o' ∧ o'.exit = o.exit ∧ o'.output = o.output ∧
      o'.source = o.source ∧
      (o.exit ≠ 2 → (∀ w, g'.isOn w = g.isOn w) → o'.errors = o.errors) := by
  rcases run_cases hstray hnotice environment s with
    ⟨hrefused, e, hrun⟩ | ⟨r, v, p, a, s₁, hshow, hverbose, hresolves, ha, hrun⟩ <;>
  rcases run_cases hstray' hnotice' environment s with
    ⟨hrefused', e', hrun'⟩ | ⟨r', v', p', a', s₂, hshow', hverbose', hresolves', ha', hrun'⟩
  · obtain rfl := Except.ok.inj (hrun.symm.trans ho)
    exact ⟨_, hrun', rfl, rfl, rfl, fun h => absurd rfl h⟩
  · exact absurd ((isRefused_congr heffective).2 hrefused) hresolves'.not_isRefused
  · exact absurd ((isRefused_congr heffective).1 hrefused') hresolves.not_isRefused
  · obtain rfl := hresolves.unique hresolves' heffective
    obtain ⟨rfl, rfl⟩ := Prod.mk.inj (Except.ok.inj (ha.symm.trans ha'))
    obtain rfl := Except.ok.inj (hrun.symm.trans ho)
    refine ⟨_, hrun', ?_⟩
    have htold : (∀ w, g'.isOn w = g.isOn w) → r'.told p' a = r.told p' a := by
      intro hswitches
      rw [Request.told, Request.told, hshow', hverbose', hswitches, hswitches, ← hshow, ← hverbose]
    cases a with
    | refused o =>
        refine ⟨rfl, rfl, rfl, fun _ hswitches => ?_⟩
        exact congrArg (· ++ echo failureText) (htold hswitches)
    | made due w => exact ⟨rfl, rfl, rfl, fun _ hswitches => htold hswitches⟩

end Given

theorem generate_of_attempt {a : Attempt} {s s' : Source} (h : p.attempt s = .ok (a, s')) :
    p.generate s = .ok (a.password?, s') := by
  rw [Policy.generate, h]
  rfl

/-- Uses whose switches ask for no notice give none that is asked for. -/
theorem notice?_given {us : List Use}
    (h : ∀ u ∈ us, ∀ w ∈ u.switches, Notice.ofSwitch? w = none) :
    (Use.given us).notice? = none := by
  rw [Given.notice?, List.findSome?_eq_none_iff]
  intro w hw
  obtain ⟨u, hu, hwu⟩ := List.mem_flatMap.1 hw
  exact h u hu w hwu

theorem run_commandLine (us : List Use) (closed : Bool) (environment : Option Text)
    (s : Source) :
    run (Use.commandLine us closed) environment s = (Use.given us).run environment s := by
  rw [run, Use.read_commandLine]

/-- Command lines with the same values in effect come to the same end. -/
theorem run_commandLine_congr {us : List Use}
    (hnotice : ∀ u ∈ us, ∀ w ∈ u.switches, Notice.ofSwitch? w = none) {s : Source} {o : Outcome}
    (ho : (Use.given us).run environment s = .ok o) (us' : List Use) (closed' : Bool)
    (hnotice' : ∀ u ∈ us', ∀ w ∈ u.switches, Notice.ofSwitch? w = none)
    (heffective : ∀ k, (Use.given us').effective environment k =
      (Use.given us).effective environment k) :
    ∃ o', run (Use.commandLine us' closed') environment s = .ok o' ∧ o'.exit = o.exit ∧
      o'.output = o.output ∧ o'.source = o.source ∧
      (o.exit ≠ 2 → (∀ w, (Use.given us').isOn w = (Use.given us).isOn w) →
        o'.errors = o.errors) := by
  rw [run_commandLine]
  exact Given.run_congr rfl (notice?_given hnotice) rfl (notice?_given hnotice') heffective ho

/-- A run comes to an end for every command line that asks for no notice. It ends with 2 exactly
when some value in effect cannot be read, and otherwise as the generation of a password from the
same source for the policy that these values stand for. Another command line with the same values
in effect makes no difference, unless for the error output. -/
theorem run_agrees_with_generate (us : List Use) (closed : Bool) (environment : Option Text)
    (s : Source) (hnotice : ∀ u ∈ us, ∀ w ∈ u.switches, Notice.ofSwitch? w = none) :
    ∃ o, run (Use.commandLine us closed) environment s = .ok o ∧
      (o.exit = 2 ↔
        ∃ k, ∃ t ∈ (Use.given us).effective environment k, k.accepts t = false) ∧
      (o.exit = 2 → o.output = [] ∧ o.source = s) ∧
      (o.exit ≠ 2 → ∃ (v : Values) (p : Policy) (w : Option Text),
        (∀ k, v.Holds ((Use.given us).effective environment k) k) ∧
        Policy.resolve ((Use.given us).effective environment .policy).head? v.overrides =
          .ok p ∧
        p.generate s = .ok (w, o.source) ∧
        match w with
        | some w => o.exit = 0 ∧ o.output = echo w
        | none => o.exit = 1 ∧ o.output = [] ∧ Text.line failureText <:+ o.errors) ∧
      ∀ us' closed', (∀ u ∈ us', ∀ w ∈ u.switches, Notice.ofSwitch? w = none) →
        (∀ k, (Use.given us').effective environment k =
          (Use.given us).effective environment k) →
        ∃ o', run (Use.commandLine us' closed') environment s = .ok o' ∧
          o'.exit = o.exit ∧ o'.output = o.output ∧ o'.source = o.source ∧
          (o.exit ≠ 2 → (∀ w, (Use.given us').isOn w = (Use.given us).isOn w) →
            o'.errors = o.errors) := by
  rcases Given.run_cases rfl (notice?_given hnotice) environment s with
    ⟨hrefused, e, hrun⟩ | ⟨r, v, p, a, s', -, -, hresolves, ha, hrun⟩
  · refine ⟨_, (run_commandLine us closed environment s).trans hrun, iff_of_true rfl hrefused,
      fun _ => ⟨rfl, rfl⟩, fun h => absurd rfl h, run_commandLine_congr hnotice hrun⟩
  · have hexit := Outcome.exit_ofAttempt_ne (r.told p a) s' a
    refine ⟨_, (run_commandLine us closed environment s).trans hrun,
      iff_of_false hexit hresolves.not_isRefused, fun h => absurd h hexit,
      fun _ => ⟨v, p, a.password?, hresolves.holds, hresolves.resolve_eq, ?_, ?_⟩,
      run_commandLine_congr hnotice hrun⟩
    · rw [Outcome.source_ofAttempt]
      exact generate_of_attempt ha
    · cases a with
      | refused o => exact ⟨rfl, rfl, echo_failureText ▸ List.suffix_append _ _⟩
      | made due w => exact ⟨rfl, rfl⟩

theorem run_agrees_with_generate_grouped :
    let us : List Use :=
      [.lettered [⟨.verbose, 'v', rfl⟩] .length "--".toList, .named .length "6".toList,
        .joined .upper "2".toList, .attached [] .custom '1' "|=".toList, .switch .showPolicy,
        .lettered [] .custom "0-|x".toList]
    let environment : Option Text := some "9//1|:lower:".toList
    let s : Source := .cycle #[3, 1]
    Use.commandLine us true =
        ["-vl", "--", "--length", "6", "--upper=2", "-c1|=", "--show-spec", "-c", "0-|x",
          "--"].map String.toList ∧
      (∀ u ∈ us, ∀ w ∈ u.switches, Notice.ofSwitch? w = none) ∧
      ∃ o, run (Use.commandLine us true) environment s = .ok o ∧ o.exit ≠ 2 ∧
        ∃ (v : Values) (p : Policy) (w : Option Text),
          (∀ k, v.Holds ((Use.given us).effective environment k) k) ∧
          Policy.resolve (some "9//1|:lower:".toList) v.overrides = .ok p ∧
          p.generate s = .ok (w, o.source) ∧
          match w with
          | some w => o.exit = 0 ∧ o.output = echo w
          | none => o.exit = 1 ∧ o.output = [] ∧ Text.line failureText <:+ o.errors := by
  intro us environment s
  have hnotice : ∀ u ∈ us, ∀ w ∈ u.switches, Notice.ofSwitch? w = none := by decide
  obtain ⟨o, hrun, hiff, -, hgenerate, -⟩ :=
    run_agrees_with_generate us true environment s hnotice
  have haccepted : ∀ k, ∀ t ∈ (Use.given us).effective environment k, k.accepts t = true := by
    intro k
    cases k <;> decide
  have hexit : o.exit ≠ 2 := by
    intro h
    obtain ⟨k, t, ht, hrefused⟩ := hiff.1 h
    rw [haccepted k t ht] at hrefused
    cases hrefused
  exact ⟨rfl, hnotice, o, hrun, hexit, hgenerate hexit⟩

end CommandLine

end PasswordPolicy
