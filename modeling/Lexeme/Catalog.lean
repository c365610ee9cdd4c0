import Lexeme.Stream

/-! # The catalogue

The fixed tables of the library, in the order in which they are listed: by number where they have one, by
code point otherwise. -/

namespace Lexeme.Catalog

def version : String := "0.1.0"

/-- The names of kinds, in order of code points. -/
def sortedNames (kinds : List TokenKind) : List String :=
  (kinds.map (·.name)).mergeSort fun a b => decide (a ≤ b)

/-- Names with the numbers that they have in their order, from one on. -/
def numbered (names : List String) : List (String × Nat) :=
  names.zipIdx 1

/-- The marks in order of code points. -/
def sortedMarks : List (Char × TokenKind) :=
  TokenKind.marks.mergeSort fun a b => decide (a.1 ≤ b.1)

/-- The adornment characters in order of code points. -/
def sortedAdornmentChars : Text :=
  TokenKind.adornmentChars.mergeSort fun a b => decide (a ≤ b)

/-- The names of brackets, each opening one with the one that closes it, in order of code points. -/
def sortedBrackets : List (String × String) :=
  (TokenKind.brackets.map fun pair => (pair.1.name, pair.2.name)).mergeSort fun a b => decide (a.1 ≤ b.1)

def classified (first last : Int) : List (Nat × TokenKind) :=
  (List.range' first.toNat (last + 1 - first).toNat).filterMap fun n =>
    if n.isValidChar then (Token.ofChar? (Char.ofNat n)).map fun t => (n, t.kind) else none

end Lexeme.Catalog
