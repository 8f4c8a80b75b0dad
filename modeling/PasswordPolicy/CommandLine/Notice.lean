import PasswordPolicy.CommandLine.Arguments

/-!
# Notices

The command can be asked for its version or for help. It then gives that notice and
does nothing else.
-/

namespace PasswordPolicy

namespace CommandLine

/-- What the command can tell about itself. -/
inductive Notice
  | version
  | help
  deriving DecidableEq

namespace Notice

/-- The notice that a switch asks for, if it asks for one. -/
def ofSwitch? : Switch → Option Notice
  | .version => some version
  | .help => some help
  | .showPolicy | .verbose => none

def usage : String := "Usage: pwspec [OPTIONS]"

def helpLines : List String :=
  [usage,
    "",
    "  Generate a password based on a spec.",
    "",
    "  The default spec should cover most needs, possibly with a length adjustment",
    "  via -l N. Options override parts of the base spec.",
    "",
    "Options:",
    "  -p, --spec SPEC             Base password spec  [default: 32//1+|:upper://1+",
    "                              |:lower://1+|:number://1+|:symbol:]",
    "  -l, --length INTEGER RANGE  Length of the generated password  [x>=0]",
    "  -u, --upper INTERVAL        Constraint on uppercase characters, N|N+|N-|A-B",
    "  -d, --lower INTERVAL        Constraint on lowercase characters, N|N+|N-|A-B",
    "  -n, --number INTERVAL       Constraint on number characters, N|N+|N-|A-B",
    "  -s, --symbol INTERVAL       Constraint on symbol characters, N|N+|N-|A-B",
    "  -c, --custom CONSTRAINT     Constraint on custom characters,",
    "                              INTERVAL|CHARSET (repeatable)",
    "  --show-spec                 Print the effective spec to stderr",
    "  -v, --verbose               Enable debug logging",
    "  --version                   Show the version and exit.",
    "  --help                      Show this message and exit.",
    "",
    "  A spec looks like LENGTH//INTERVAL|CHARSET//INTERVAL|CHARSET...",
    "  A CHARSET is either a run of literal characters or one of the patterns",
    "  :upper:, :lower:, :number:, :symbol:.",
    "  An INTERVAL is N for exactly N characters, N+ for at least N, N- for at",
    "  most N, and A-B for between A and B.",
    "",
    "  Examples:",
    "    pwspec",
    "    pwspec -l 12",
    "    pwspec --spec '16//3+|:upper://1-2|:lower://3-|:number://1|:symbol:'",
    "    pwspec -s 0 -c '1+|!@#$%^&*_+-='"]

def text : Notice → Text
  | version => "pwspec, version 0.1.0".toList
  | help => Text.joined ['\n'] (helpLines.map String.toList)

end Notice

/-- The notice that is asked for first, if one is asked for. -/
def Given.notice? (g : Given) : Option Notice := g.switches.findSome? Notice.ofSwitch?

end CommandLine

end PasswordPolicy
