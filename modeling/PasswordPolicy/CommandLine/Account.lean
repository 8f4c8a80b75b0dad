import PasswordPolicy.Generation.Password
import PasswordPolicy.Policy.Description

/-!
# The account of a generation

An account says in a few lines how a password was generated: the totals of the
policy, then how many characters were due and how many places remained, or what
stood in the way. Nothing in it depends on the characters that were drawn.
-/

namespace PasswordPolicy

namespace CommandLine

/-- A line of an account, after the name of what gives it and the importance of
the line. -/
def entryLine (origin importance message : Text) : Text :=
  Text.line (Text.joined " - ".toList [origin, importance, message])

/-- The totals of a policy beside its length. -/
def totalsNote (p : Policy) : Text :=
  let most := match p.most with
    | some m => Numeral.write m
    | none => "None".toList
  "Spec bounds: min=".toList ++ Numeral.write p.least ++ ", max=".toList ++ most ++
    ", length=".toList ++ Numeral.write p.length

def obstacleNote : Policy.Obstacle → Text
  | .unfillable r =>
    "Spec infeasible: ".toList ++ r.text ++ " requires characters from an empty set".toList
  | .excess least length =>
    "Spec infeasible: required ".toList ++ Numeral.write least ++ " > length ".toList ++
      Numeral.write length
  | .shortage length most =>
    "Spec infeasible: length ".toList ++ Numeral.write length ++ " > allowed ".toList ++
      Numeral.write most

/-- How many characters were due and how many places remained. -/
def drawnNote (due remaining : Nat) : Text :=
  "Drew ".toList ++ Numeral.write due ++ " required characters, filling ".toList ++
    Numeral.write remaining

def notes (p : Policy) : Attempt → List Text
  | .refused (.unfillable r) => [obstacleNote (.unfillable r)]
  | .refused o => [totalsNote p, obstacleNote o]
  | .made due _ => [totalsNote p, drawnNote due (p.length - due)]

def account (p : Policy) (a : Attempt) : Text :=
  (notes p a).flatMap (entryLine "pwspec.spec.password".toList "DEBUG".toList)

/-- A warning of each literal that does not survive being written into the text
of the policy. -/
def warnings (p : Policy) : Text :=
  p.unreadable.flatMap fun cs =>
    entryLine "pwspec.__main__".toList "WARNING".toList
      ("Custom charset '".toList ++ cs ++ "' can't be read back from spec text".toList)

end CommandLine

end PasswordPolicy
