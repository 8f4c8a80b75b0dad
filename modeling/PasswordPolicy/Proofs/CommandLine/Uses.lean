import PasswordPolicy.CommandLine.Arguments
import PasswordPolicy.Proofs.Fallible

/-!
# Uses of settings and switches

A use is one way to give a setting or some switches, and a command line is the arguments of
some uses, one after the other, with or without two hyphens at the end. Reading a command
line gives the settings and switches of its uses in their order (`read_commandLine`). The
arguments that are read without an error and without stray words are the command lines
(`read_eq_ok_iff`), so the uses leave out no spelling.
-/

namespace PasswordPolicy

namespace CommandLine

structure LetteredSwitch where
  switch : Switch
  letter : Char
  letter?_switch : switch.letter? = some letter

inductive Use
  /-- The long name of a switch. -/
  | switch (w : Switch)
  /-- The letters of some switches in one argument. -/
  | letters (w : LetteredSwitch) (ws : List LetteredSwitch)
  /-- The long name of a setting, then the value. -/
  | named (s : Setting) (value : Text)
  /-- The long name of a setting and the value after an equals sign. -/
  | joined (s : Setting) (value : Text)
  /-- The letter of a setting after those of some switches, then the value. -/
  | lettered (ws : List LetteredSwitch) (s : Setting) (value : Text)
  /-- The letter of a setting after those of some switches, and right after it the value,
  which is not empty. -/
  | attached (ws : List LetteredSwitch) (s : Setting) (c : Char) (t : Text)

namespace Use

def arguments : Use → List Text
  | switch w => [w.longName]
  | letters w ws => ['-' :: (w :: ws).map LetteredSwitch.letter]
  | named s value => [s.longName, value]
  | joined s value => [s.longName ++ '=' :: value]
  | lettered ws s value => ['-' :: (ws.map LetteredSwitch.letter ++ [s.letter]), value]
  | attached ws s c t => ['-' :: (ws.map LetteredSwitch.letter ++ s.letter :: c :: t)]

def switches : Use → List Switch
  | switch w => [w]
  | letters w ws => (w :: ws).map LetteredSwitch.switch
  | named _ _ | joined _ _ => []
  | lettered ws _ _ | attached ws _ _ _ => ws.map LetteredSwitch.switch

def setting? : Use → Option (Setting × Text)
  | switch _ | letters _ _ => none
  | named s value | joined s value | lettered _ s value => some (s, value)
  | attached _ s c t => some (s, c :: t)

/-- The use before what else was given. -/
def addTo (u : Use) (g : Given) : Given :=
  ⟨u.setting?.toList ++ g.settings, u.switches ++ g.switches, g.stray⟩

/-- What is given by some uses. -/
def given (us : List Use) : Given :=
  ⟨us.filterMap setting?, us.flatMap switches, []⟩

theorem given_cons (u : Use) (us : List Use) : given (u :: us) = u.addTo (given us) := by
  rw [given, given, addTo, List.filterMap_cons, List.flatMap_cons]
  cases u.setting? <;> rfl

/-- The arguments of some uses, which two hyphens may close. -/
def commandLine (us : List Use) (closed : Bool) : List Text :=
  us.flatMap arguments ++ if closed then [['-', '-']] else []

end Use

section Names

/-- A long name begins with two hyphens and goes on after them. -/
theorem Key.longName_eq (k : Key) : ∃ c t, k.longName = '-' :: '-' :: c :: t := by
  rcases k with s | w
  · cases s <;> exact ⟨_, _, rfl⟩
  · cases w <;> exact ⟨_, _, rfl⟩

theorem Key.not_mem_longName (k : Key) : '=' ∉ k.longName := by
  rcases k with s | w
  · cases s <;> decide
  · cases w <;> decide

theorem Key.longName_of_ofLongName? {name : Text} {k : Key} (h : Key.ofLongName? name = some k) :
    k.longName = name := by
  simpa using List.find?_some h

theorem Key.letter?_of_ofLetter? {c : Char} {k : Key} (h : Key.ofLetter? c = some k) :
    k.letter? = some c := by
  simpa using List.find?_some h

end Names

namespace Mention

/-- What a mention gives if the next argument is `next`. -/
def given (next : Text) (m : Mention) : Setting × Text := (m.setting, m.value.getD next)

/-- The arguments that a mention takes besides its own if the next one is `next`. -/
def further (next : Text) (m : Mention) : List Text := if m.value = none then [next] else []

end Mention

namespace Argument

variable {arg t : Text} {ws : List Switch} {m : Option Mention}

theorem nameAndValue_eq_none_iff {name : Text} :
    nameAndValue arg = (name, none) ↔ arg = name ∧ '=' ∉ arg := by
  rw [nameAndValue, ← Text.cutAt?_eq_none_iff]
  cases Text.cutAt? '=' arg <;> simp

theorem nameAndValue_eq_some_iff {name value : Text} :
    nameAndValue arg = (name, some value) ↔ arg = name ++ '=' :: value ∧ '=' ∉ name := by
  rw [nameAndValue, ← Text.cutAt?_eq_some_iff]
  cases Text.cutAt? '=' arg <;> simp [Prod.ext_iff]

theorem ofLetters_letter_switch_iff {l : LetteredSwitch} :
    ofLetters (l.letter :: t) = .ok (keys ws m) ↔
      ∃ ws', ofLetters t = .ok (keys ws' m) ∧ ws = l.switch :: ws' := by
  rw [ofLetters, Key.ofLetter?_of_letter? (k := .switch l.switch) l.letter?_switch, map_eq_ok_iff]
  constructor
  · rintro ⟨a, ha, h⟩
    rcases a with _ | _ | ⟨ws', m'⟩
    · cases h
    · cases h
    · obtain ⟨rfl, rfl⟩ := by simpa using h
      exact ⟨ws', ha, rfl⟩
  · rintro ⟨ws', h, rfl⟩
    exact ⟨_, h, rfl⟩

theorem ofLetters_letter_setting (s : Setting) (t : Text) :
    ofLetters (s.letter :: t) =
      .ok (keys [] (some ⟨s, ['-', s.letter], if t = [] then none else some t⟩)) := by
  rw [ofLetters, Key.ofLetter?_of_letter? (k := .setting s) rfl]

/-- A run of letters is that of some switches, or else goes on after them with the letter of a
setting and the value. -/
theorem ofLetters_eq_keys_iff :
    ofLetters t = .ok (keys ws m) ↔ ∃ ls : List LetteredSwitch,
      ls.map LetteredSwitch.switch = ws ∧ (t = ls.map LetteredSwitch.letter ∧ m = none ∨
        ∃ s rest, t = ls.map LetteredSwitch.letter ++ s.letter :: rest ∧
          m = some ⟨s, ['-', s.letter], if rest = [] then none else some rest⟩) := by
  constructor
  · intro h
    induction t generalizing ws with
    | nil =>
        obtain ⟨rfl, rfl⟩ := by simpa [ofLetters] using h
        exact ⟨[], rfl, .inl ⟨rfl, rfl⟩⟩
    | cons c t ih =>
        cases hc : Key.ofLetter? c with
        | none => simp [ofLetters, hc] at h
        | some k =>
            rcases k with s | w
            · obtain rfl : s.letter = c := Option.some.inj (Key.letter?_of_ofLetter? hc)
              rw [ofLetters_letter_setting] at h
              obtain ⟨rfl, rfl⟩ := by simpa using h
              exact ⟨[], rfl, .inr ⟨s, t, rfl, rfl⟩⟩
            · let l : LetteredSwitch := ⟨w, c, Key.letter?_of_ofLetter? hc⟩
              obtain ⟨ws', ht, rfl⟩ := ofLetters_letter_switch_iff (l := l).1 h
              obtain ⟨ls, rfl, hls⟩ := ih ht
              refine ⟨l :: ls, rfl, ?_⟩
              simpa [l] using hls
  · rintro ⟨ls, rfl, h⟩
    induction ls generalizing t with
    | nil =>
        rcases h with ⟨rfl, rfl⟩ | ⟨s, rest, rfl, rfl⟩
        · rfl
        · exact ofLetters_letter_setting s rest
    | cons l ls ih =>
        rcases h with ⟨rfl, rfl⟩ | ⟨s, rest, rfl, rfl⟩
        · exact ofLetters_letter_switch_iff.2 ⟨_, ih (.inl ⟨rfl, rfl⟩), rfl⟩
        · exact ofLetters_letter_switch_iff.2 ⟨_, ih (.inr ⟨s, rest, rfl, rfl⟩), rfl⟩

section

variable {c : Char} {name : Text} {value : Option Text}

theorem read_of_ofLongName? {k : Key} (h : c = '-' → t ≠ [])
    (hname : nameAndValue ('-' :: c :: t) = (name, value)) (hk : Key.ofLongName? name = some k) :
    read ('-' :: c :: t) = ofLongKey name value k := by
  rw [read]
  · simp only [hname, hk]
  · exact h

theorem read_of_ofLongName?_eq_none (h : c = '-' → t ≠ [])
    (hname : nameAndValue ('-' :: c :: t) = (name, value)) (hk : Key.ofLongName? name = none) :
    read ('-' :: c :: t) = if c = '-' then .error (.unknown name) else ofLetters (c :: t) := by
  rw [read]
  · simp only [hname, hk]
  · exact h

end

theorem ofLetters_ne_terminator (t : Text) : ofLetters t ≠ .ok terminator := by
  induction t with
  | nil => nofun
  | cons c t ih =>
      rw [ofLetters]
      split
      · nofun
      · nofun
      · intro h
        obtain ⟨a, ha, hend⟩ := map_eq_ok_iff.1 h
        split at hend
        · cases hend
        · exact ih (hend ▸ ha)

theorem ofLongKey_ne_terminator (name : Text) (value : Option Text) (k : Key) :
    ofLongKey name value k ≠ .ok terminator := by
  rcases k with s | w
  · nofun
  · cases value <;> nofun

theorem read_cases (arg : Text) :
    arg = ['-', '-'] ∨ read arg = .ok word ∨
      ∃ c t, arg = '-' :: c :: t ∧ (c = '-' → t ≠ []) := by
  unfold read
  split
  · exact .inl rfl
  · rename_i c t hne
    exact .inr (.inr ⟨c, t, rfl, fun hc ht => hne hc ht⟩)
  · exact .inr (.inl rfl)

/-- What has a long name begins with two hyphens and goes on after them. -/
theorem exists_eq_of_ofLongName? {name : Text} {value : Option Text} {k : Key}
    (hname : nameAndValue arg = (name, value)) (hk : Key.ofLongName? name = some k) :
    ∃ c t, arg = '-' :: '-' :: c :: t := by
  obtain ⟨c, r, hr⟩ := k.longName_eq
  rw [Key.longName_of_ofLongName? hk] at hr
  subst hr
  cases value with
  | none => exact ⟨c, r, (nameAndValue_eq_none_iff.1 hname).1⟩
  | some value => exact ⟨c, _, (nameAndValue_eq_some_iff.1 hname).1⟩

/-- An argument with a long name gives what the name stands for, and any other argument that
gives something is a run of letters after a hyphen. -/
theorem read_eq_keys_iff :
    read arg = .ok (keys ws m) ↔
      (∃ name value k, nameAndValue arg = (name, value) ∧ Key.ofLongName? name = some k ∧
        ofLongKey name value k = .ok (keys ws m)) ∨
      ∃ t, t ≠ [] ∧ arg = '-' :: t ∧ ofLetters t = .ok (keys ws m) := by
  cases hname : nameAndValue arg with
  | mk name value =>
      constructor
      · intro h
        rcases read_cases arg with rfl | hword | ⟨c, t, rfl, hct⟩
        · cases h
        · cases hword.symm.trans h
        · cases hk : Key.ofLongName? name with
          | some k =>
              rw [read_of_ofLongName? hct hname hk] at h
              exact .inl ⟨_, _, k, rfl, hk, h⟩
          | none =>
              rw [read_of_ofLongName?_eq_none hct hname hk] at h
              split at h
              · cases h
              · exact .inr ⟨c :: t, List.cons_ne_nil c t, rfl, h⟩
      · rintro (⟨name', value', k, heq, hk, h⟩ | ⟨t, hne, rfl, h⟩)
        · obtain ⟨rfl, rfl⟩ := Prod.mk.inj heq
          obtain ⟨c, t, rfl⟩ := exists_eq_of_ofLongName? hname hk
          exact (read_of_ofLongName? (fun _ => List.cons_ne_nil c t) hname hk).trans h
        · obtain ⟨c, t, rfl⟩ := List.exists_cons_of_ne_nil hne
          have hc : c ≠ '-' := by
            rintro rfl
            cases h
          have hk : Key.ofLongName? name = none := by
            by_contra hsome
            obtain ⟨k, hk⟩ := Option.ne_none_iff_exists'.1 hsome
            obtain ⟨d, r, hr⟩ := exists_eq_of_ofLongName? hname hk
            exact hc (List.cons.inj (List.cons.inj hr).2).1
          rw [read_of_ofLongName?_eq_none (fun h => absurd h hc) hname hk, if_neg hc]
          exact h

theorem eq_of_read_eq_terminator (h : read arg = .ok terminator) : arg = ['-', '-'] := by
  rcases read_cases arg with harg | hword | ⟨c, t, rfl, hct⟩
  · exact harg
  · cases hword.symm.trans h
  · cases hname : nameAndValue ('-' :: c :: t) with
    | mk name value =>
        cases hk : Key.ofLongName? name with
        | some k =>
            rw [read_of_ofLongName? hct hname hk] at h
            exact absurd h (ofLongKey_ne_terminator _ _ _)
        | none =>
            rw [read_of_ofLongName?_eq_none hct hname hk] at h
            split at h
            · cases h
            · exact absurd h (ofLetters_ne_terminator _)

theorem read_longName {k : Key} (h : ofLongKey k.longName none k = .ok (keys ws m)) :
    read k.longName = .ok (keys ws m) :=
  read_eq_keys_iff.2 (.inl ⟨k.longName, none, k,
    nameAndValue_eq_none_iff.2 ⟨rfl, k.not_mem_longName⟩, k.ofLongName?_longName, h⟩)

theorem read_longName_value {k : Key} {value : Text}
    (h : ofLongKey k.longName (some value) k = .ok (keys ws m)) :
    read (k.longName ++ '=' :: value) = .ok (keys ws m) :=
  read_eq_keys_iff.2 (.inl ⟨k.longName, some value, k,
    nameAndValue_eq_some_iff.2 ⟨rfl, k.not_mem_longName⟩, k.ofLongName?_longName, h⟩)

/-- A run of letters after a hyphen, with the letter of a setting at the end of the run. -/
theorem read_letters_setting (ls : List LetteredSwitch) (s : Setting) (t : Text) :
    read ('-' :: (ls.map LetteredSwitch.letter ++ s.letter :: t)) =
      .ok (keys (ls.map LetteredSwitch.switch)
        (some ⟨s, ['-', s.letter], if t = [] then none else some t⟩)) :=
  read_eq_keys_iff.2 (.inr ⟨_, by simp, rfl,
    ofLetters_eq_keys_iff.2 ⟨ls, rfl, .inr ⟨s, t, rfl, rfl⟩⟩⟩)

end Argument

namespace Use

/-- What is read from an argument is given by a use, with any value that may follow. -/
theorem exists_use {arg : Text} {ws : List Switch} {m : Option Mention}
    (h : Argument.read arg = .ok (.keys ws m)) (next : Text) :
    ∃ u : Use, u.arguments = arg :: m.elim [] (Mention.further next) ∧ u.switches = ws ∧
      u.setting? = m.map (Mention.given next) := by
  rcases Argument.read_eq_keys_iff.1 h with
    ⟨name, value, k, hname, hk, hkey⟩ | ⟨t, hne, rfl, hletters⟩
  · obtain rfl := Key.longName_of_ofLongName? hk
    rcases k with s | w <;> cases value
    · obtain ⟨rfl, rfl⟩ := by simpa [Argument.ofLongKey] using hkey
      obtain ⟨rfl, -⟩ := Argument.nameAndValue_eq_none_iff.1 hname
      exact ⟨.named s next, rfl, rfl, rfl⟩
    · obtain ⟨rfl, rfl⟩ := by simpa [Argument.ofLongKey] using hkey
      obtain ⟨rfl, -⟩ := Argument.nameAndValue_eq_some_iff.1 hname
      exact ⟨.joined s _, rfl, rfl, rfl⟩
    · obtain ⟨rfl, rfl⟩ := by simpa [Argument.ofLongKey] using hkey
      obtain ⟨rfl, -⟩ := Argument.nameAndValue_eq_none_iff.1 hname
      exact ⟨.switch w, rfl, rfl, rfl⟩
    · simp [Argument.ofLongKey] at hkey
  · obtain ⟨ls, rfl, ⟨rfl, rfl⟩ | ⟨s, rest, rfl, rfl⟩⟩ :=
      Argument.ofLetters_eq_keys_iff.1 hletters
    · cases ls with
      | nil => exact absurd rfl hne
      | cons l ls => exact ⟨.letters l ls, rfl, rfl, rfl⟩
    · cases rest with
      | nil => exact ⟨.lettered ls s next, rfl, rfl, rfl⟩
      | cons c t => exact ⟨.attached ls s c t, rfl, rfl, rfl⟩

/-- The arguments of a use are an argument that is read and what may belong to it. -/
theorem exists_read (u : Use) : ∃ arg m next, Argument.read arg = .ok (.keys u.switches m) ∧
    u.arguments = arg :: m.elim [] (Mention.further next) ∧
      u.setting? = m.map (Mention.given next) := by
  cases u with
  | switch w => exact ⟨_, none, [], Argument.read_longName (k := .switch w) rfl, rfl, rfl⟩
  | letters l ls =>
      refine ⟨_, none, [], Argument.read_eq_keys_iff.2 (.inr ⟨_, by simp, rfl, ?_⟩), rfl, rfl⟩
      exact Argument.ofLetters_eq_keys_iff.2 ⟨l :: ls, rfl, .inl ⟨rfl, rfl⟩⟩
  | named s value =>
      exact ⟨_, some ⟨s, s.longName, none⟩, value,
        Argument.read_longName (k := .setting s) rfl, rfl, rfl⟩
  | joined s value =>
      exact ⟨_, some ⟨s, s.longName, some value⟩, [],
        Argument.read_longName_value (k := .setting s) rfl, rfl, rfl⟩
  | lettered ls s value =>
      exact ⟨_, _, value, Argument.read_letters_setting ls s [], rfl, rfl⟩
  | attached ls s c t =>
      exact ⟨_, _, [], Argument.read_letters_setting ls s (c :: t), rfl, rfl⟩

/-- Reading the arguments of a use gives the use before what the other arguments give. -/
theorem read_arguments_append (u : Use) (args : List Text) :
    Given.read (u.arguments ++ args) = (Given.read args).map u.addTo := by
  obtain ⟨arg, m, next, hread, hargs, hsetting⟩ := u.exists_read
  have hadd : u.addTo = fun g =>
      ⟨(m.map (Mention.given next)).toList ++ g.settings, u.switches ++ g.switches, g.stray⟩ := by
    funext g
    rw [addTo, hsetting]
  rw [hargs, List.cons_append, Given.read, hread, hadd]
  rcases m with _ | ⟨s, name, _ | value⟩ <;> rfl

theorem commandLine_cons (u : Use) (us : List Use) (closed : Bool) :
    commandLine (u :: us) closed = u.arguments ++ commandLine us closed := by
  rw [commandLine, List.flatMap_cons, List.append_assoc, commandLine]

theorem read_commandLine (us : List Use) (closed : Bool) :
    Given.read (commandLine us closed) = .ok (given us) := by
  induction us with
  | nil => cases closed <;> rfl
  | cons u us ih =>
      rw [commandLine_cons, read_arguments_append, ih, given_cons]
      rfl

/-- What is read from an argument can stand before a command line. -/
theorem exists_commandLine_cons {arg : Text} {ws : List Switch} {m : Option Mention}
    {args : List Text} (harg : Argument.read arg = .ok (.keys ws m)) (next : Text)
    (h : ∃ us closed, args = commandLine us closed) :
    ∃ us closed, arg :: (m.elim [] (Mention.further next) ++ args) = commandLine us closed := by
  obtain ⟨us, closed, rfl⟩ := h
  obtain ⟨u, hu, -⟩ := exists_use harg next
  exact ⟨u :: us, closed, by rw [commandLine_cons, hu, List.cons_append]⟩

/-- The arguments from which something is read are a command line, if there is no stray word
among them. -/
theorem exists_commandLine {args : List Text} {g : Given} (h : Given.read args = .ok g)
    (hstray : g.stray = []) : ∃ us closed, args = commandLine us closed := by
  fun_induction Given.read args generalizing g with
  | case1 => exact ⟨[], false, rfl⟩
  | case2 => cases h
  | case3 arg args harg =>
      obtain rfl := Argument.eq_of_read_eq_terminator harg
      obtain rfl := Except.ok.inj h
      obtain rfl : args = [] := hstray
      exact ⟨[], true, rfl⟩
  | case4 arg args harg ih =>
      obtain ⟨g', hg', rfl⟩ := map_eq_ok_iff.1 h
      cases hstray
  | case5 arg args ws harg ih =>
      obtain ⟨g', hg', rfl⟩ := map_eq_ok_iff.1 h
      exact exists_commandLine_cons harg [] (ih hg' hstray)
  | case6 arg args ws s name value harg ih =>
      obtain ⟨g', hg', rfl⟩ := map_eq_ok_iff.1 h
      exact exists_commandLine_cons harg [] (ih hg' hstray)
  | case7 => cases h
  | case8 arg ws s name harg value args ih =>
      obtain ⟨g', hg', rfl⟩ := map_eq_ok_iff.1 h
      exact exists_commandLine_cons harg value (ih hg' hstray)

/-- Something without stray words is read from the command lines, and it is what their uses
give. -/
theorem read_eq_ok_iff {args : List Text} {g : Given} :
    Given.read args = .ok g ∧ g.stray = [] ↔
      ∃ us closed, args = commandLine us closed ∧ g = given us := by
  constructor
  · rintro ⟨h, hstray⟩
    obtain ⟨us, closed, rfl⟩ := exists_commandLine h hstray
    exact ⟨us, closed, rfl, Except.ok.inj (h.symm.trans (read_commandLine us closed))⟩
  · rintro ⟨us, closed, rfl, rfl⟩
    exact ⟨read_commandLine us closed, rfl⟩

-- Two hyphens are a value where one is due, and only the first equals sign divides.
example :
    Given.read ["-vl".toList, "--".toList, "--custom=1|=".toList, "--".toList] =
      .ok ⟨[(.length, "--".toList), (.custom, "1|=".toList)], [.verbose], []⟩ := rfl

end Use

end CommandLine

end PasswordPolicy
