import PasswordPolicy.CommandLine.Account
import PasswordPolicy.CommandLine.Notice
import PasswordPolicy.CommandLine.Values
import PasswordPolicy.Text.Escape

/-!
# Running the command

The command applies the overrides to the policy to start from, shows the policy
in use if it is asked to, and generates a password. It ends with 0 and the
password on the output, with 1 if no password meets the policy, or with 2 if the
arguments cannot be used. A notice that is asked for comes before all that, whatever
the values of the settings.
-/

namespace PasswordPolicy

namespace CommandLine

structure Outcome where
  exit : Nat
  output : Text
  /-- What is written to the error output. After a usage error this is the message
  alone. -/
  errors : Text
  source : Source

inductive Failure
  /-- The overrides cannot be applied. -/
  | invalid (e : Error)
  /-- A password cannot be drawn. -/
  | faulty (f : Fault)
  deriving DecidableEq

/-- A line of text for something other than a terminal. -/
def echo (t : Text) : Text := Text.withoutControls (Text.line t)

/-- The line that says that no password meets the policy. -/
def failureText : Text := "Constraints couldn't be met, try again".toList

/-- The policy in use: warnings, its text, and its description. -/
def shownPolicy (p : Policy) : Text :=
  warnings p ++ echo ("Spec: ".toList ++ p.text) ++ echo p.describe

/-- The end of a run after an attempt to generate a password, with what went to
the error output before. -/
def Outcome.ofAttempt (shown : Text) (source : Source) : Attempt → Outcome
  | .refused _ => ⟨1, [], shown ++ echo failureText, source⟩
  | .made _ w => ⟨0, echo w, shown, source⟩

/-- The end of a run after a usage error. -/
def Outcome.ofUsageError (e : UsageError) (source : Source) : Outcome :=
  ⟨2, [], echo e.message, source⟩

/-- The end of a run that is asked for a notice. -/
def Outcome.ofNotice (n : Notice) (source : Source) : Outcome := ⟨0, echo n.text, [], source⟩

/-- The end of a run that is asked for something it can do. -/
def Request.run (r : Request) (s : Source) : Except Failure Outcome := do
  let p ← (r.base.override r.overrides).mapError .invalid
  let (a, s') ← (p.attempt s).mapError .faulty
  let shown := if r.showPolicy then shownPolicy p else []
  let told := if r.verbose then account p a else []
  return .ofAttempt (shown ++ told) s' a

/-- The end of a run with what its arguments give. -/
def Given.run (g : Given) (environment : Option Text) (s : Source) : Except Failure Outcome :=
  match g.notice? with
  | some n => .ok (.ofNotice n s)
  | none =>
    match g.request environment with
    | .error e => .ok (.ofUsageError e s)
    | .ok r => r.run s

/-- A run of the command with its arguments, the policy text in the environment
and a random source. -/
def run (args : List Text) (environment : Option Text) (s : Source) :
    Except Failure Outcome :=
  match Given.read args with
  | .error e => .ok (.ofUsageError e s)
  | .ok g => g.run environment s

end CommandLine

end PasswordPolicy
