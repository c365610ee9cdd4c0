import Lexeme.Numeral
import Lexeme.Text.Blank
import Lexeme.Text.Quoted
import Lexeme.Token.Kind

/-! # Tokens

A token is a kind with the text it stands for. `Token.classify` says which token a character is by itself;
a character that is none belongs to a word. Words are made by `Token.word?`, which refuses the empty text. -/

namespace Lexeme

/-- A kind with the text that a token of it stands for. -/
structure Token where
  kind : TokenKind
  value : Text
deriving DecidableEq, Repr

namespace Token

/-- The token of a word; there is none for the empty text. -/
def word? (text : Text) : Option Token :=
  if text.isEmpty then none else some ⟨.word, text⟩

/-- The token that a cell is by itself: a line end, spacing, or a mark. -/
def classify (cell : Text) : Option Token :=
  if cell.isLineEnd then some ⟨.newline, cell⟩
  else if cell.isSpacing then some ⟨.whitespace, cell⟩
  else match cell with
    | [c] => (TokenKind.ofMark? c).map fun kind => ⟨kind, cell⟩
    | _ => none

/-- The token that a character is by itself, if it is not part of a word. -/
def ofChar? (c : Char) : Option Token :=
  classify [c]

/-- A character belongs to a word when it is no token by itself. -/
def isWordChar (c : Char) : Bool :=
  (ofChar? c).isNone

/-- The token could open an item of a bullet list. -/
def isBullet (t : Token) : Bool :=
  TokenKind.bullets.contains t.kind

/-- The token could adorn a section title. -/
def isAdornment (t : Token) : Bool :=
  TokenKind.adornments.contains t.kind

/-- The token could be part of a reference name. -/
def isReferencePart (t : Token) : Bool :=
  TokenKind.references.contains t.kind

/-- The token is the bracket that closes the bracket `opener`. -/
def closes (t opener : Token) : Bool :=
  TokenKind.brackets.lookup opener.kind == some t.kind

/-- The places in a list of the tokens that the token closes. -/
def placesClosed (t : Token) (tokens : List Token) : List Nat :=
  (tokens.zipIdx.filter fun entry => t.closes entry.1).map (·.2)

def arabic (t : Token) : Except Numeral.NumeralError (Option Nat) :=
  if t.kind = .word then Numeral.readArabic t.value else .ok none

def latin? (t : Token) : Option Nat :=
  if t.kind = .word then Numeral.latin? t.value else none

def roman? (t : Token) : Option Nat :=
  if t.kind = .word then Numeral.roman? t.value else none

def numeral (t : Token) : Except Numeral.NumeralError (Option Nat) :=
  if t.kind = .word then Numeral.read t.value else .ok none

/-- A token as it is shown: words and white space with their text, any other by its kind alone. -/
def describe (t : Token) : String :=
  if t.kind = .word ∨ t.kind = .whitespace then
    "Token(" ++ t.kind.name ++ ", " ++ (Text.quote t.value).toString ++ ")"
  else "Token(" ++ t.kind.name ++ ")"

end Token
end Lexeme
