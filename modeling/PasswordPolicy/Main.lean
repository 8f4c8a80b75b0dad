import PasswordPolicy.CommandLine.Run

/-!
# The command

Reads the arguments and the environment, runs the command with a random source of
the system, and writes what comes of it.
-/

namespace PasswordPolicy

namespace CommandLine

/-- How many random bytes make one number of the source. -/
def bytesPerCall : Nat := 16

/-- The numbers that runs of bytes stand for. -/
def numbers : Nat → List UInt8 → List Nat
  | 0, _ => []
  | n + 1, bytes =>
    (bytes.take bytesPerCall).foldl (fun k b => 256 * k + b.toNat) 0 ::
      numbers n (bytes.drop bytesPerCall)

/-- A source of as many random numbers of the system as are needed. -/
def systemSource (calls : Nat) : IO Source := do
  let bytes ← IO.getRandomBytes (bytesPerCall * calls).toUSize
  return .cycle (numbers calls bytes.toList).toArray

/-- What comes before the message of a usage error. -/
def usageHint : String :=
  Notice.usage ++ "\nTry 'pwspec --help' for help.\n\nError: "

/-- Write what comes of a run, and give the exit status. -/
def finish (o : Outcome) : IO UInt32 := do
  let lead := if o.exit = 2 then usageHint else ""
  (← IO.getStderr).putStr (lead ++ String.ofList o.errors)
  (← IO.getStdout).putStr (String.ofList o.output)
  return o.exit.toUInt32

end CommandLine

end PasswordPolicy

open PasswordPolicy CommandLine in
/-- Run the command. The number of random numbers does not depend on what they
are, so a run on a fixed source says how many are needed. -/
def main (args : List String) : IO UInt32 := do
  let environment := (← IO.getEnv "PWSPEC_SPEC").map String.toList
  let attempt := run (args.map String.toList) environment
  match attempt (.cycle #[0]) with
  | .error _ => return 1
  | .ok rehearsal =>
    match attempt (← systemSource rehearsal.source.calls) with
    | .error _ => return 1
    | .ok o => finish o
