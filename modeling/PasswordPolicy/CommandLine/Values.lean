import PasswordPolicy.CommandLine.Arguments
import PasswordPolicy.Policy.Overrides
import PasswordPolicy.Text.Integer
import PasswordPolicy.Text.Quoted

/-!
# Values of settings

The last value of a setting is the one that counts; of the further rules all do.
Values are read in the order in which their settings were first given, and the
first that cannot be read is reported. A policy that is not given comes from the
environment, or else is the standard one. It is read last. Stray words are
reported when all values can be read.
-/

namespace PasswordPolicy

namespace CommandLine

/-- A length, which must be an integer and not negative. -/
def readLength (t : Text) : Except Text Int :=
  match Integer.read? t with
  | none => .error (Text.quoted t ++ " is not a valid integer range.".toList)
  | some n =>
    if n < 0 then .error (Numeral.writeInt n ++ " is not in the range x>=0.".toList)
    else .ok n

/-- What settings stand for: the policy to start from, if it is given, and the
overrides. -/
structure Values where
  base : Option Policy
  overrides : Overrides

namespace Values

def empty : Values := ⟨none, .empty⟩

def setBase (v : Values) (p : Policy) : Values := { v with base := some p }

def setLength (v : Values) (n : Int) : Values :=
  { v with overrides := { v.overrides with length := some n } }

def setRange (v : Values) (r : CountRange) : CharClass → Values
  | .upper => { v with overrides := { v.overrides with upper := some r } }
  | .lower => { v with overrides := { v.overrides with lower := some r } }
  | .number => { v with overrides := { v.overrides with number := some r } }
  | .symbol => { v with overrides := { v.overrides with symbol := some r } }

def setCustom (v : Values) (rs : List Rule) : Values :=
  { v with overrides := { v.overrides with custom := rs } }

end Values

/-- A usage error for a value that a reader of policies and their parts refuses. -/
def refusedValue (s : Setting) (e : Error) : UsageError := .invalid s e.message

/-- The values with those of one setting read from the texts given for it, of which
the last is at hand. -/
def Setting.read (v : Values) (texts : List Text) (last : Text) :
    Setting → Except UsageError Values
  | .policy => ((Policy.read last).map v.setBase).mapError (refusedValue .policy)
  | .length => ((readLength last).map v.setLength).mapError (.invalid .length)
  | .upper => ((CountRange.read last).map (v.setRange · .upper)).mapError (refusedValue .upper)
  | .lower => ((CountRange.read last).map (v.setRange · .lower)).mapError (refusedValue .lower)
  | .number => ((CountRange.read last).map (v.setRange · .number)).mapError (refusedValue .number)
  | .symbol => ((CountRange.read last).map (v.setRange · .symbol)).mapError (refusedValue .symbol)
  | .custom => ((texts.mapM Rule.read).map v.setCustom).mapError (refusedValue .custom)

namespace Given

def readSetting (g : Given) (v : Values) (s : Setting) : Except UsageError Values :=
  match (g.values s).getLast? with
  | some last => s.read v (g.values s) last
  | none => .ok v

def readSettings (g : Given) : Except UsageError Values :=
  g.order.foldlM g.readSetting Values.empty

end Given

/-- The text of the policy to start from where none is given. An empty text in the
environment counts as none. -/
def fallbackText (environment : Option Text) : Text :=
  (environment.filter (· ≠ [])).getD Policy.standardText

/-- The policy to start from. -/
def Values.basePolicy (v : Values) (environment : Option Text) : Except UsageError Policy :=
  match v.base with
  | some p => .ok p
  | none => (Policy.read (fallbackText environment)).mapError (refusedValue .policy)

structure Request where
  base : Policy
  overrides : Overrides
  showPolicy : Bool
  verbose : Bool

def Given.request (g : Given) (environment : Option Text) : Except UsageError Request := do
  let v ← g.readSettings
  let base ← v.basePolicy environment
  if g.stray ≠ [] then .error (.stray g.stray)
  else return ⟨base, v.overrides, g.isOn .showPolicy, g.isOn .verbose⟩

end CommandLine

end PasswordPolicy
