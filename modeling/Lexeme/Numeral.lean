import Lexeme.Numeral.Roman

/-! # Numerals

A word can count: as an arabic number, as a letter of the latin alphabet, or as a roman numeral, in this
order of preference. Values run from one to the largest number of 64 bits. Only ASCII digits and letters
count. A run of more than 4300 digits is refused as an error, whatever its value, before its value is
known; leading zeros count among the digits. -/

namespace Lexeme.Numeral

/-- The largest value of a numeral: all 64 bits set. -/
def largest : Nat := 0xffffffffffffffff

/-- The most digits that are read as a number. -/
def digitLimit : Nat := 4300

/-- Why reading a numeral fails, as opposed to finding none. -/
inductive NumeralError where
  | tooLong (digits : Nat)
deriving DecidableEq, Repr

def NumeralError.message : NumeralError → String
  | .tooLong digits => s!"Exceeds the limit ({digitLimit} digits) for integer string conversion: value has " ++
      s!"{digits} digits; use sys.set_int_max_str_digits() to increase the limit"

def digitValue (c : Char) : Nat :=
  c.toNat - '0'.toNat

/-- The number that a run of decimal digits denotes. -/
def ofDigits (digits : Text) : Nat :=
  digits.foldl (fun n c => 10 * n + digitValue c) 0

/-- A text is a run of digits when it is not empty and holds ASCII digits only. -/
def isDigitRun (text : Text) : Bool :=
  !text.isEmpty && text.all Char.isDigit

/-- The value of an arabic number: a run of digits, not too long, that denotes a value in range. -/
def readArabic (text : Text) : Except NumeralError (Option Nat) :=
  if !isDigitRun text then .ok none
  else if digitLimit < text.length then .error (.tooLong text.length)
  else
    let value := ofDigits text
    .ok (if value = 0 ∨ largest < value then none else some value)

/-- The place of a single ASCII letter in the alphabet, whatever its case. -/
def latin? : Text → Option Nat
  | [c] => if c.isAlpha then some (c.toUpper.toNat - 'A'.toNat + 1) else none
  | _ => none

/-- The value of a text as a numeral of any kind: arabic, else latin, else roman. -/
def read (text : Text) : Except NumeralError (Option Nat) := do
  match ← readArabic text with
  | some value => return some value
  | none => return (latin? text).or (roman? text)

end Lexeme.Numeral
