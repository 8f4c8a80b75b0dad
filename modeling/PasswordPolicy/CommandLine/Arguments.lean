import PasswordPolicy.CommandLine.UsageError

/-!
# Arguments

The arguments of the command are settings, switches, and stray words, which it has
no use for. After the long name of a setting the value follows an equals sign or is
the next argument, whatever that is. After its letter the value is the rest of the
argument, if there is any, or the next one; letters of switches can stand before
it in one argument. Two hyphens alone make all later arguments stray words.
-/

namespace PasswordPolicy

namespace CommandLine

/-- A setting in an argument: its name as it was given, and its value, unless that
is the next argument. -/
structure Mention where
  setting : Setting
  name : Text
  value : Option Text

inductive Argument
  | terminator
  | word
  /-- Switches and at most one setting after them. -/
  | keys (switches : List Switch) (mention : Option Mention)

namespace Argument

/-- The switches and the setting that a run of letters stands for. -/
def ofLetters : Text → Except UsageError Argument
  | [] => .ok (keys [] none)
  | c :: t =>
    match Key.ofLetter? c with
    | none => .error (.unknown ['-', c])
    | some (.setting s) =>
      .ok (keys [] (some ⟨s, ['-', c], if t = [] then none else some t⟩))
    | some (.switch w) =>
      (ofLetters t).map fun
        | keys ws m => keys (w :: ws) m
        | a => a

/-- The setting or switch that a long name stands for, with the value after the
equals sign. -/
def ofLongKey (name : Text) (value : Option Text) : Key → Except UsageError Argument
  | .setting s => .ok (keys [] (some ⟨s, name, value⟩))
  | .switch w =>
    match value with
    | none => .ok (keys [w] none)
    | some _ => .error (.valueUnwanted name)

/-- The name and the value of an argument that has an equals sign, or the
argument as a name. -/
def nameAndValue (arg : Text) : Text × Option Text :=
  match Text.cutAt? '=' arg with
  | some (name, value) => (name, some value)
  | none => (arg, none)

def read (arg : Text) : Except UsageError Argument :=
  match arg with
  | ['-', '-'] => .ok terminator
  | '-' :: c :: t =>
    let (name, value) := nameAndValue arg
    match Key.ofLongName? name with
    | some key => ofLongKey name value key
    | none => if c = '-' then .error (.unknown name) else ofLetters (c :: t)
  | _ => .ok word

end Argument

structure Given where
  settings : List (Setting × Text)
  switches : List Switch
  stray : List Text

namespace Given

def empty : Given := ⟨[], [], []⟩

/-- Switches before what else was given. -/
def withSwitches (ws : List Switch) (g : Given) : Given :=
  { g with switches := ws ++ g.switches }

/-- A setting before what else was given. -/
def withSetting (s : Setting) (value : Text) (g : Given) : Given :=
  { g with settings := (s, value) :: g.settings }

/-- A stray word before what else was given. -/
def withStray (word : Text) (g : Given) : Given :=
  { g with stray := word :: g.stray }

def read : List Text → Except UsageError Given
  | [] => .ok empty
  | arg :: args =>
    match Argument.read arg with
    | .error e => .error e
    | .ok .terminator => .ok ⟨[], [], args⟩
    | .ok .word => (read args).map (withStray arg)
    | .ok (.keys ws none) => (read args).map (withSwitches ws)
    | .ok (.keys ws (some ⟨s, _, some value⟩)) =>
      (read args).map fun g => (g.withSetting s value).withSwitches ws
    | .ok (.keys ws (some ⟨s, name, none⟩)) =>
      match args with
      | [] => .error (.valueMissing name)
      | value :: args => (read args).map fun g => (g.withSetting s value).withSwitches ws

/-- The values of a setting in the order in which they were given. -/
def values (g : Given) (s : Setting) : List Text :=
  g.settings.filterMap fun p => if p.1 = s then some p.2 else none

/-- The settings in the order in which each was first given. -/
def order (g : Given) : List Setting := (g.settings.map Prod.fst).eraseDups

def isOn (g : Given) (w : Switch) : Bool := g.switches.contains w

end Given

end CommandLine

end PasswordPolicy
