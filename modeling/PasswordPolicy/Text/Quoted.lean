import PasswordPolicy.Text.Printable

/-!
# Quoted text

`quoted t` writes a text between quotes on one line. The quotes are single,
unless the text has a single quote and no double one. The quote in use and the
backslash are escaped by a backslash, a tab, line feed and carriage return by
their letters, and all other characters that are not printable by their code
point in hexadecimal, in two, four or eight digits.
-/

namespace PasswordPolicy

namespace Text

/-- The quote that encloses a text. -/
def quoteFor (t : Text) : Char :=
  if t.contains '\'' && !t.contains '"' then '"' else '\''

/-- The last `width` hexadecimal digits of a code point. -/
def hexDigits (width : Nat) (n : Nat) : Text :=
  let digits := Nat.toDigits 16 n
  List.replicate (width - digits.length) '0' ++ digits

/-- A character that is given by its code point. -/
def hexEscape (c : Char) : Text :=
  if c.toNat < 0x100 then '\\' :: 'x' :: hexDigits 2 c.toNat
  else if c.toNat < 0x10000 then '\\' :: 'u' :: hexDigits 4 c.toNat
  else '\\' :: 'U' :: hexDigits 8 c.toNat

/-- One character of a text within the given quotes. -/
def quotedChar (quote c : Char) : Text :=
  if c = quote || c = '\\' then ['\\', c]
  else if c = '\t' then ['\\', 't']
  else if c = '\n' then ['\\', 'n']
  else if c = '\r' then ['\\', 'r']
  else if isPrintable c then [c]
  else hexEscape c

/-- A text between quotes, on one line. -/
def quoted (t : Text) : Text :=
  quoteFor t :: t.flatMap (quotedChar (quoteFor t)) ++ [quoteFor t]

-- A soft hyphen, a zero width space and a character for private use, then two that are
-- printable.
example : quoted ['\'', '\u00ad', '\u200b', Char.ofNat 0xF0000, 'é', '😀'] =
    "\"'\\xad\\u200b\\U000f0000é😀\"".toList := by
  decide +kernel

end Text

end PasswordPolicy
