import PasswordPolicy.Error

/-!
# Alphabets

An alphabet is what the characters of a rule are drawn from. It is one of four
standard classes or a literal list of characters, whose order and repetitions
count. A standard class may carry a tag. The tag is no part of its letters; it
keeps alphabets with different tags apart.
-/

namespace PasswordPolicy

inductive CharClass
  | upper
  | lower
  | number
  | symbol
  deriving DecidableEq

namespace CharClass

/-- The standard classes, in their usual order. -/
def all : List CharClass := [upper, lower, number, symbol]

/-- The name of a class in patterns. -/
def name : CharClass → Text
  | upper => "upper".toList
  | lower => "lower".toList
  | number => "number".toList
  | symbol => "symbol".toList

/-- The word for a class in descriptions. -/
def word : CharClass → Text
  | upper => "uppercase".toList
  | lower => "lowercase".toList
  | number => "numbers".toList
  | symbol => "symbols".toList

/-- The letters of a class. The digits have no zero, which is easily mistaken
for the letter O, and the punctuation has no quote, no backslash and nothing
that a shell or the text of a policy treats specially. -/
def letters : CharClass → List Char
  | upper => "ABCDEFGHIJKLMNOPQRSTUVWXYZ".toList
  | lower => "abcdefghijklmnopqrstuvwxyz".toList
  | number => "123456789".toList
  | symbol => "!@%^&*-_=+:;,.?~".toList

/-- The text of a class: its name between colons. -/
def pattern (k : CharClass) : Text := ':' :: k.name ++ [':']

theorem letters_ne_nil (k : CharClass) : k.letters ≠ [] := by
  cases k <;> decide

end CharClass

/-- What the characters of a rule are drawn from. -/
inductive Alphabet
  | standard (kind : CharClass) (tag : Text)
  | literal (chars : Text)
  deriving DecidableEq

namespace Alphabet

def ofClass (k : CharClass) : Alphabet := standard k []

def kind? : Alphabet → Option CharClass
  | standard k _ => some k
  | literal _ => none

/-- The characters that an alphabet carries: its tag or its literal. -/
def chars : Alphabet → Text
  | standard _ tag => tag
  | literal cs => cs

def kindName : Alphabet → Text
  | standard k _ => k.name
  | literal _ => "custom".toList

/-- The characters to draw from, each as often as it is listed. -/
def letters : Alphabet → List Char
  | standard k _ => k.letters
  | literal cs => cs

/-- The pattern of a standard alphabet; a literal has none. -/
def pattern : Alphabet → Text
  | standard k _ => k.pattern
  | literal _ => []

/-- The text of an alphabet: the pattern of its class, or its characters. -/
def text : Alphabet → Text
  | standard k _ => k.pattern
  | literal cs => cs

def isEmpty (a : Alphabet) : Bool := a.letters.isEmpty

/-- Only the empty literal has nothing to draw. -/
theorem isEmpty_iff {a : Alphabet} : a.isEmpty = true ↔ a = literal [] := by
  cases a with
  | standard k _ => simp [isEmpty, letters, CharClass.letters_ne_nil k]
  | literal cs => simp [isEmpty, letters]

end Alphabet

end PasswordPolicy
