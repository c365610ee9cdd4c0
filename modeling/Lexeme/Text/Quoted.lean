import Lexeme.Text.Printable

/-! # Quoted text

A text is shown between quotation marks, on one line and in printable characters only. The mark is a single
quote, unless the text holds a single quote and no double quote. A backslash and the mark are written after
a backslash, line feed, carriage return and tab by their letters, and every other character that is not
printable by its code point in hexadecimal: two digits after `\x`, four after `\u`, eight after `\U`. -/

namespace Lexeme.Text

/-- The mark that a text is quoted with. -/
def quoteMark (t : Text) : Char :=
  if t.contains '\x27' && !t.contains '\x22' then '\x22' else '\x27'

/-- A number in lower-case hexadecimal, with zeros before it up to the width. -/
def hexadecimal (width n : Nat) : Text :=
  let digits := Nat.toDigits 16 n
  List.replicate (width - digits.length) '0' ++ digits

/-- A code point written as an escape, in the shortest of the three widths that holds it. -/
def escapeCode (n : Nat) : Text :=
  if n < 0x100 then '\\' :: 'x' :: hexadecimal 2 n
  else if n < 0x10000 then '\\' :: 'u' :: hexadecimal 4 n
  else '\\' :: 'U' :: hexadecimal 8 n

/-- A character as it is written inside a text quoted with `mark`. -/
def escapeChar (mark c : Char) : Text :=
  if c = '\\' ∨ c = mark then ['\\', c]
  else if c = '\n' then ['\\', 'n']
  else if c = '\r' then ['\\', 'r']
  else if c = '\t' then ['\\', 't']
  else if isPrintable c then [c]
  else escapeCode c.toNat

def quote (t : Text) : Text :=
  let mark := quoteMark t
  mark :: (t.flatMap (escapeChar mark) ++ [mark])

def quoteString (s : String) : String :=
  String.ofList (quote s.toList)

end Lexeme.Text
