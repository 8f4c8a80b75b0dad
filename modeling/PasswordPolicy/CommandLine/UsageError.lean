import PasswordPolicy.CommandLine.Key

/-!
# Usage errors

The causes for which the arguments of the command cannot be used, and their
wording.
-/

namespace PasswordPolicy

namespace CommandLine

inductive UsageError
  | unknown (name : Text)
  | valueMissing (name : Text)
  | valueUnwanted (name : Text)
  | invalid (setting : Setting) (reason : Text)
  | stray (words : List Text)
  deriving DecidableEq

namespace UsageError

/-- The question after a name that is unknown: whether one of some names is meant. -/
def suggestion : List Text → Text
  | [] => []
  | [name] => " Did you mean ".toList ++ name ++ ['?']
  | names => " (Possible options: ".toList ++ Text.joined ", ".toList names ++ [')']

def message : UsageError → Text
  | unknown name => "No such option: ".toList ++ name ++ suggestion (Key.namesNear name)
  | valueMissing name => "Option '".toList ++ name ++ "' requires an argument.".toList
  | valueUnwanted name => "Option '".toList ++ name ++ "' does not take a value.".toList
  | invalid s reason =>
    "Invalid value for '".toList ++ s.longName ++ "' / '-".toList ++ [s.letter] ++
      "': ".toList ++ reason
  | stray words =>
    let plural : Text := if words.length = 1 then [] else ['s']
    "Got unexpected extra argument".toList ++ plural ++ " (".toList ++
      Text.joined [' '] words ++ [')']

end UsageError

end CommandLine

end PasswordPolicy
