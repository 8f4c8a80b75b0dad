import PasswordPolicy.CommandLine.Values
import PasswordPolicy.Proofs.Fallible

/-!
# Values in effect

Of the values of a setting the last is in effect, and all of them are if the setting is that
of the further rules. The text in the environment is in effect if no policy is given. What the
command is asked for is what these values stand for, or else one of them cannot be read
(`ends_request`). That settings are read one after the other is no part of this: reading the
values of one leaves what is held for the others as it is (`Setting.ends_read`).
-/

namespace PasswordPolicy

namespace CommandLine

variable {v v' : Values} {g : Given} {environment : Option Text}

/-- The values that count among those of a setting. -/
def Setting.counted (texts : List Text) : Setting → List Text
  | .custom => texts
  | .policy | .length | .upper | .lower | .number | .symbol => texts.getLast?.toList

/-- Whether a value can be read as one of a setting. -/
def Setting.accepts (t : Text) : Setting → Bool
  | .policy => (Policy.read t).isOk
  | .length => (readLength t).isOk
  | .upper | .lower | .number | .symbol => (CountRange.read t).isOk
  | .custom => (Rule.read t).isOk

/-- What is held for a setting is what some texts stand for. -/
def Values.Holds (v : Values) (texts : List Text) : Setting → Prop
  | .policy => texts.mapM Policy.read = .ok v.base.toList
  | .length => texts.mapM readLength = .ok v.overrides.length.toList
  | .upper => texts.mapM CountRange.read = .ok v.overrides.upper.toList
  | .lower => texts.mapM CountRange.read = .ok v.overrides.lower.toList
  | .number => texts.mapM CountRange.read = .ok v.overrides.number.toList
  | .symbol => texts.mapM CountRange.read = .ok v.overrides.symbol.toList
  | .custom => texts.mapM Rule.read = .ok v.overrides.custom

namespace Given

/-- The values of a setting that count among those given. -/
def counted (g : Given) (s : Setting) : List Text := s.counted (g.values s)

/-- The values in effect. A text in the environment is in effect if no policy is given, unless
it is empty. -/
def effective (g : Given) (environment : Option Text) : Setting → List Text
  | .policy => ((g.values .policy).getLast?.or (environment.filter (· ≠ []))).toList
  | s => g.counted s

/-- Some value in effect cannot be read. -/
def IsRefused (g : Given) (environment : Option Text) : Prop :=
  ∃ s, ∃ t ∈ g.effective environment s, s.accepts t = false

end Given

namespace Values

theorem holds_empty (s : Setting) : Values.empty.Holds [] s := by
  cases s <;> rfl

/-- What texts stand for can be read. -/
theorem accepts_of_holds {texts : List Text} {s : Setting} (h : v.Holds texts s) {t : Text}
    (ht : t ∈ texts) : s.accepts t = true := by
  cases s <;> exact isOk_of_mapM_eq_ok h ht

/-- Texts stand for one thing at most. -/
theorem eq_of_holds {texts : Setting → List Text} (h : ∀ s, v.Holds (texts s) s)
    (h' : ∀ s, v'.Holds (texts s) s) : v = v' := by
  have hlist : ∀ {α : Type} {a b : Option α}, a.toList = b.toList → a = b := by
    intro α a b hab
    simpa using congrArg List.head? hab
  obtain ⟨base, length, upper, lower, number, symbol, custom⟩ := v
  obtain ⟨base', length', upper', lower', number', symbol', custom'⟩ := v'
  obtain rfl := hlist (Except.ok.inj ((h .policy).symm.trans (h' .policy)))
  obtain rfl := hlist (Except.ok.inj ((h .length).symm.trans (h' .length)))
  obtain rfl := hlist (Except.ok.inj ((h .upper).symm.trans (h' .upper)))
  obtain rfl := hlist (Except.ok.inj ((h .lower).symm.trans (h' .lower)))
  obtain rfl := hlist (Except.ok.inj ((h .number).symm.trans (h' .number)))
  obtain rfl := hlist (Except.ok.inj ((h .symbol).symm.trans (h' .symbol)))
  obtain rfl := Except.ok.inj ((h .custom).symm.trans (h' .custom))
  rfl

end Values

/-- What is held for settings other than `s` stays. -/
def Values.KeepsOthers (s : Setting) (v v' : Values) : Prop :=
  ∀ k, k ≠ s → ∀ texts, v.Holds texts k → v'.Holds texts k

/-- Reading the values of a setting gives what those that count stand for, and leaves what is
held for the others. -/
theorem Setting.ends_read (v : Values) {texts : List Text} {last : Text}
    (hlast : texts.getLast? = some last) (s : Setting) :
    Ends (fun v' => v'.Holds (s.counted texts) s ∧ v.KeepsOthers s v')
      (fun _ => ∃ t ∈ s.counted texts, s.accepts t = false) (s.read v texts last) := by
  have hone : texts.getLast?.toList = [last] := by rw [hlast]; rfl
  cases s with
  | policy | length | upper | lower | number | symbol =>
      refine ends_map_mapError (fun a ha => ⟨?_, ?_⟩) fun e he => ⟨last, ?_, ?_⟩
      · rw [counted, hone]
        exact mapM_singleton_eq_ok_iff.2 ⟨a, ha, rfl⟩
      · intro k hk texts
        cases k <;> first | exact absurd rfl hk | exact id
      · rw [counted, hone]
        exact List.mem_singleton_self last
      · rw [accepts, he]
        rfl
  | custom =>
      refine ends_map_mapError (fun rs hrs => ⟨hrs, ?_⟩) fun e he => ?_
      · intro k hk texts
        cases k <;> first | exact absurd rfl hk | exact id
      · obtain ⟨t, ht, -⟩ := mapM_eq_error_iff.1 he
        refine ⟨t, List.mem_of_find?_eq_some ht, ?_⟩
        simpa [accepts] using List.find?_some ht

namespace Given

theorem values_ne_nil_iff {s : Setting} : g.values s ≠ [] ↔ s ∈ g.order := by
  simp [values, order, List.filterMap_eq_nil_iff]

theorem ends_readSetting (v : Values) {s : Setting} (hs : s ∈ g.order) :
    Ends (fun v' => v'.Holds (g.counted s) s ∧ v.KeepsOthers s v')
      (fun _ => ∃ t ∈ g.counted s, s.accepts t = false) (g.readSetting v s) := by
  cases hlast : (g.values s).getLast? with
  | none => exact absurd (List.getLast?_eq_none_iff.1 hlast) (values_ne_nil_iff.2 hs)
  | some last =>
      rw [readSetting, hlast]
      exact s.ends_read v hlast

/-- Reading the values of some settings gives what those that count stand for, if that is
already held for all others. -/
theorem ends_foldlM_readSetting {ss : List Setting} (hss : ∀ s ∈ ss, s ∈ g.order)
    (hv : ∀ s, s ∉ ss → v.Holds (g.counted s) s) :
    Ends (fun v' => ∀ s, v'.Holds (g.counted s) s)
      (fun _ => ∃ s, ∃ t ∈ g.counted s, s.accepts t = false) (ss.foldlM g.readSetting v) := by
  induction ss generalizing v with
  | nil => exact fun s => hv s List.not_mem_nil
  | cons s ss ih =>
      obtain ⟨hs, hss⟩ := List.forall_mem_cons.1 hss
      rw [List.foldlM_cons]
      have hstep : Ends _ (fun _ => ∃ s, ∃ t ∈ g.counted s, s.accepts t = false) _ :=
        (ends_readSetting v hs).mono_error fun _ h => ⟨s, h⟩
      refine hstep.bind fun v' hv' => ih hss fun k hk => ?_
      by_cases hks : k = s
      · exact hks ▸ hv'.1
      · refine hv'.2 k hks _ (hv k ?_)
        exact fun hmem => hk ((List.mem_cons.1 hmem).resolve_left hks)

theorem ends_readSettings (g : Given) :
    Ends (fun v => ∀ s, v.Holds (g.counted s) s)
      (fun _ => ∃ s, ∃ t ∈ g.counted s, s.accepts t = false) g.readSettings := by
  refine ends_foldlM_readSetting (fun s hs => hs) fun s hs => ?_
  have hvalues : g.values s = [] := by
    by_contra hne
    exact hs (values_ne_nil_iff.1 hne)
  have hcounted : g.counted s = [] := by
    rw [counted, hvalues]
    cases s <;> rfl
  rw [hcounted]
  exact Values.holds_empty s

theorem counted_subset_effective {s : Setting} :
    g.counted s ⊆ g.effective environment s := by
  intro t ht
  cases s with
  | policy =>
      have hlast : (g.values .policy).getLast? = some t := Option.mem_toList.1 ht
      rw [effective, hlast]
      exact List.mem_singleton_self t
  | length | upper | lower | number | symbol | custom => exact ht

theorem exists_read_standardText : ∃ p, Policy.read Policy.standardText = .ok p :=
  ⟨_, rfl⟩

/-- What is held for the settings is what the values in effect stand for, with the policy that
is in effect. -/
theorem holds_effective (hv : ∀ s, v.Holds (g.counted s) s) {base : Option Policy}
    (hbase : (g.effective environment .policy).mapM Policy.read = .ok base.toList) (s : Setting) :
    (Values.mk base v.overrides).Holds (g.effective environment s) s := by
  have h := hv s
  cases s with
  | policy => exact hbase
  | length | upper | lower | number | symbol | custom => exact h

/-- The policy to start from is what the text in effect stands for, or the standard one. -/
theorem ends_basePolicy (hv : ∀ s, v.Holds (g.counted s) s) :
    Ends (fun p => ∃ base : Option Policy,
        (g.effective environment .policy).mapM Policy.read = .ok base.toList ∧
          Policy.read ((g.effective environment .policy).head?.getD Policy.standardText) = .ok p)
      (fun _ => g.IsRefused environment) (v.basePolicy environment) := by
  have hpolicy := hv .policy
  rw [Values.Holds, counted, Setting.counted] at hpolicy
  rw [Values.basePolicy, effective]
  cases hlast : (g.values .policy).getLast? with
  | some t =>
      rw [hlast] at hpolicy
      obtain ⟨p, hp, hbase⟩ := mapM_singleton_eq_ok_iff.1 hpolicy
      rw [Option.toList_eq_singleton_iff.1 hbase]
      exact ⟨some p, mapM_singleton_eq_ok_iff.2 ⟨p, hp, rfl⟩, hp⟩
  | none =>
      rw [hlast] at hpolicy
      rw [Option.toList_eq_nil_iff.1 (Except.ok.inj hpolicy).symm, fallbackText, Option.none_or]
      cases henvironment : environment.filter (· ≠ []) with
      | none =>
          obtain ⟨p, hp⟩ := exists_read_standardText
          refine ends_of_eq_ok (a := p) ?_ ⟨none, rfl, hp⟩
          rw [Option.getD_none, hp]
          rfl
      | some t =>
          rw [Option.getD_some]
          cases hp : Policy.read t with
          | ok p => exact ⟨some p, mapM_singleton_eq_ok_iff.2 ⟨p, hp, rfl⟩, hp⟩
          | error e =>
              refine ⟨.policy, t, ?_, ?_⟩
              · rw [effective, hlast, henvironment]
                exact List.mem_singleton_self t
              · rw [Setting.accepts, hp]
                rfl

theorem not_isRefused_of_holds (hv : ∀ s, v.Holds (g.effective environment s) s) :
    ¬ g.IsRefused environment := by
  rintro ⟨s, t, ht, hrefused⟩
  rw [Values.accepts_of_holds (hv s) ht] at hrefused
  cases hrefused

/-- What the command is asked for is what the values in effect stand for. -/
theorem ends_request (hstray : g.stray = []) :
    Ends (fun r => ∃ v : Values, (∀ s, v.Holds (g.effective environment s) s) ∧
        Policy.read ((g.effective environment .policy).head?.getD Policy.standardText) =
          .ok r.base ∧
        r = ⟨r.base, v.overrides, g.isOn .showPolicy, g.isOn .verbose⟩)
      (fun _ => g.IsRefused environment) (g.request environment) := by
  rw [request]
  have hvalues : Ends _ (fun _ => g.IsRefused environment) g.readSettings :=
    g.ends_readSettings.mono_error fun _ ⟨s, t, ht, hrefused⟩ =>
      ⟨s, t, counted_subset_effective ht, hrefused⟩
  refine hvalues.bind fun v hv => (ends_basePolicy hv).bind fun p ⟨base, hbase, hp⟩ => ?_
  rw [if_neg (not_not.2 hstray)]
  exact ⟨⟨base, v.overrides⟩, holds_effective hv hbase, hp, rfl⟩

end Given

end CommandLine

end PasswordPolicy
