import PasswordPolicy.Text.Likeness

/-!
# Settings and switches

The command has settings, which take a value, and switches, which take none. All
of them have a long name, and most a letter. `ofLongName?_longName` and
`ofLetter?_of_letter?` say that each is found by its names.
-/

namespace PasswordPolicy

namespace CommandLine

/-- What takes a value. -/
inductive Setting
  | policy
  | length
  | upper
  | lower
  | number
  | symbol
  | custom
  deriving DecidableEq

/-- What is on or off. -/
inductive Switch
  | showPolicy
  | verbose
  | version
  | help
  deriving DecidableEq

inductive Key
  | setting (s : Setting)
  | switch (s : Switch)
  deriving DecidableEq

namespace Setting

def all : List Setting := [policy, length, upper, lower, number, symbol, custom]

def longName : Setting → Text
  | policy => "--spec".toList
  | length => "--length".toList
  | upper => "--upper".toList
  | lower => "--lower".toList
  | number => "--number".toList
  | symbol => "--symbol".toList
  | custom => "--custom".toList

def letter : Setting → Char
  | policy => 'p'
  | length => 'l'
  | upper => 'u'
  | lower => 'd'
  | number => 'n'
  | symbol => 's'
  | custom => 'c'

end Setting

namespace Switch

def all : List Switch := [showPolicy, verbose, version, help]

def longName : Switch → Text
  | showPolicy => "--show-spec".toList
  | verbose => "--verbose".toList
  | version => "--version".toList
  | help => "--help".toList

def letter? : Switch → Option Char
  | verbose => some 'v'
  | showPolicy | version | help => none

end Switch

namespace Key

def all : List Key := Setting.all.map setting ++ Switch.all.map switch

def longName : Key → Text
  | setting s => s.longName
  | switch s => s.longName

def letter? : Key → Option Char
  | setting s => some s.letter
  | switch s => s.letter?

def ofLongName? (name : Text) : Option Key := all.find? (·.longName = name)

def ofLetter? (c : Char) : Option Key := all.find? (·.letter? = some c)

theorem ofLongName?_longName (k : Key) : ofLongName? k.longName = some k := by
  rcases k with s | s <;> cases s <;> rfl

theorem ofLetter?_of_letter? {k : Key} {c : Char} (h : k.letter? = some c) :
    ofLetter? c = some k := by
  rcases k with s | s <;> cases s <;> cases h <;> rfl

/-- The long names that may be meant by a name that no setting or switch has, in
alphabetical order. They are the at most three nearest of those whose likeness to
the name is at least three fifths. A hyphen and a letter are too short to be that
much like any of them. -/
def namesNear (name : Text) : List Text :=
  (Text.nearest 3 (3 / 5) name (all.map longName)).mergeSort Text.alphabetical

end Key

end CommandLine

end PasswordPolicy
