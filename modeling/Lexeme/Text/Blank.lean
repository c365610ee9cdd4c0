import Lexeme.Text

/-! # Blank characters

The characters with the White_Space property, and the texts that count as spacing. The four information
separators U+001C to U+001F do not have the property: one of them inside a longer run does no harm to the
run's being spacing, but alone it is not spacing. -/

namespace Lexeme.Text

/-- The ranges of code points with the White_Space property. -/
def blankRanges : List (Nat × Nat) :=
  [(0x09, 0x0d), (0x20, 0x20), (0x85, 0x85), (0xa0, 0xa0), (0x1680, 0x1680), (0x2000, 0x200a),
    (0x2028, 0x2029), (0x202f, 0x202f), (0x205f, 0x205f), (0x3000, 0x3000)]

/-- A character is blank when it has the White_Space property. -/
def isBlank (c : Char) : Bool :=
  blankRanges.any fun r => r.1 ≤ c.toNat && c.toNat ≤ r.2

/-- The information separators: file, group, record and unit separator. -/
def isSeparator (c : Char) : Bool :=
  0x1c ≤ c.toNat && c.toNat ≤ 0x1f

/-- A text is spacing when it is not empty, holds only blanks and separators, and is not a separator
    alone. -/
def isSpacing : Text → Bool
  | [] => false
  | [c] => isBlank c
  | cs => cs.all fun c => isBlank c || isSeparator c

end Lexeme.Text
