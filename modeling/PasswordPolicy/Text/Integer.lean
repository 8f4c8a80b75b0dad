import PasswordPolicy.Text.Blank
import PasswordPolicy.Text.DecimalDigit

/-!
# Integers as people type them

An integer is a run of decimal digits of any script, with a sign before it if one
likes, single underscores between its digits, and white space around it. The
information separators U+001C to U+001F, though blank, are no white space here.
-/

namespace PasswordPolicy

namespace Integer

/-- White space around an integer. -/
def isSpace (c : Char) : Bool :=
  Text.isBlank c && !(0x1C ≤ c.toNat && c.toNat ≤ 0x1F)

/-- The text without the white space at either end. -/
def stripped (t : Text) : Text :=
  ((t.dropWhile isSpace).reverse.dropWhile isSpace).reverse

/-- The number that more digits make when they follow the digits of a number. -/
def readMore? (n : Nat) : Text → Option Nat
  | [] => some n
  | '_' :: c :: t => (Text.digitValue? c).bind fun d => readMore? (10 * n + d) t
  | c :: t => (Text.digitValue? c).bind fun d => readMore? (10 * n + d) t

/-- The number that a run of digits stands for. -/
def readDigits? : Text → Option Nat
  | [] => none
  | c :: t => (Text.digitValue? c).bind fun d => readMore? d t

/-- The integer that digits after a sign stand for. -/
def readSigned? : Text → Option Int
  | '-' :: t => (readDigits? t).map fun n => -(n : Int)
  | '+' :: t => (readDigits? t).map Int.ofNat
  | t => (readDigits? t).map Int.ofNat

/-- The integer that a text stands for, if it stands for one. -/
def read? (t : Text) : Option Int := readSigned? (stripped t)

end Integer

end PasswordPolicy
