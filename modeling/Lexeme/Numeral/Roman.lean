import Lexeme.Text

/-! # Roman numerals

A roman numeral is read from the left against a table of symbols, from the largest value to the smallest.
After a symbol has been read, reading goes on `skip` rows after it, so that what may not follow it is never
tried; with a skip of zero the symbol may come again, three times at most. A text all in lower case reads
like its upper case, and in any other text only upper-case letters are symbols. -/

namespace Lexeme.Numeral

/-- A symbol of the table, how many rows reading moves on once it is read, and what it is worth. -/
structure RomanRow where
  symbol : Text
  skip : Nat
  value : Nat
  symbol_ne_nil : symbol ≠ [] := by decide

/-- The symbols from the largest value to the smallest. -/
def romanRows : List RomanRow :=
  [{ symbol := ['M', 'M', 'M', 'M'], skip := 2, value := 4000 },
    { symbol := ['M'], skip := 0, value := 1000 },
    { symbol := ['C', 'M'], skip := 4, value := 900 },
    { symbol := ['D'], skip := 1, value := 500 },
    { symbol := ['C', 'D'], skip := 2, value := 400 },
    { symbol := ['C'], skip := 0, value := 100 },
    { symbol := ['X', 'C'], skip := 4, value := 90 },
    { symbol := ['L'], skip := 1, value := 50 },
    { symbol := ['X', 'L'], skip := 2, value := 40 },
    { symbol := ['X'], skip := 0, value := 10 },
    { symbol := ['I', 'X'], skip := 4, value := 9 },
    { symbol := ['V'], skip := 1, value := 5 },
    { symbol := ['I', 'V'], skip := 2, value := 4 },
    { symbol := ['I'], skip := 0, value := 1 }]

/-- How often a symbol without a skip may stand in a row. -/
def repeatLimit : Nat := 3

/-- The rows from the first whose symbol opens the text. -/
def rowsOpening (rows : List RomanRow) (text : Text) : List RomanRow :=
  rows.dropWhile fun row => !row.symbol.isPrefixOf text

/-- What is known while a roman numeral is read: the rows still allowed, the symbol read last with the
    number of times it stands there, and the value so far. -/
structure RomanProgress where
  allowed : List RomanRow
  last : Option Text
  times : Nat
  total : Nat

def RomanProgress.start : RomanProgress :=
  { allowed := romanRows, last := none, times := 0, total := 0 }

/-- The symbol of `row` is read, where `onward` are the rows after it: refused if the same symbol came
    before and it has a skip or has come too often. -/
def RomanProgress.read (p : RomanProgress) (row : RomanRow) (onward : List RomanRow) : Option RomanProgress :=
  let times := if p.last = some row.symbol then p.times + 1 else 1
  if p.last = some row.symbol ∧ (row.skip ≠ 0 ∨ repeatLimit < times) then none
  else some
    { allowed := (row :: onward).drop row.skip, last := some row.symbol, times, total := p.total + row.value }

/-- The value of the whole text read after `p`, if it is a numeral. -/
def romanFrom (p : RomanProgress) (text : Text) : Option Nat :=
  match text with
  | [] => if p.total = 0 then none else some p.total
  | c :: rest =>
    match rowsOpening p.allowed (c :: rest) with
    | [] => none
    | row :: onward =>
      match p.read row onward with
      | none => none
      | some p' => romanFrom p' ((c :: rest).drop row.symbol.length)
termination_by text.length
decreasing_by
  have := List.length_pos_iff.mpr row.symbol_ne_nil
  simp only [List.length_drop, List.length_cons]
  omega

/-- A text all in lower case, in upper case; any other text as it is. -/
def raised (text : Text) : Text :=
  if text.all Char.isLower then text.map Char.toUpper else text

def roman? (text : Text) : Option Nat :=
  romanFrom .start (raised text)

end Lexeme.Numeral
