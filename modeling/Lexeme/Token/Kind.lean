import Lexeme.Text

/-! # Kinds of tokens

A token is a newline, a piece of white space, one of the bullet glyphs, an ASCII punctuation mark or
bracket, or a word. Every mark stands for itself: one character, one kind. -/

namespace Lexeme

inductive TokenKind where
  | newline
  | whitespace
  | bullet
  | hyphenBullet
  | triangularBullet
  | ampersand
  | asterisk
  | atSign
  | backslash
  | backtick
  | caret
  | colon
  | comma
  | dollar
  | doubleQuote
  | equal
  | exclamation
  | forwardSlash
  | greaterThan
  | hash
  | hyphen
  | lessThan
  | percent
  | period
  | pipe
  | plus
  | question
  | semicolon
  | singleQuote
  | tilde
  | underscore
  | openParen
  | closeParen
  | openBracket
  | closeBracket
  | openBrace
  | closeBrace
  | word
deriving DecidableEq, Repr

namespace TokenKind

def all : List TokenKind :=
  [newline, whitespace, bullet, hyphenBullet, triangularBullet, ampersand, asterisk, atSign, backslash,
    backtick, caret, colon, comma, dollar, doubleQuote, equal, exclamation, forwardSlash, greaterThan, hash,
    hyphen, lessThan, percent, period, pipe, plus, question, semicolon, singleQuote, tilde, underscore,
    openParen, closeParen, openBracket, closeBracket, openBrace, closeBrace, word]

def name : TokenKind → String
  | newline => "NEWLINE"
  | whitespace => "WHITESPACE"
  | bullet => "BULLET"
  | hyphenBullet => "HYPHEN_BULLET"
  | triangularBullet => "TRIANGULAR_BULLET"
  | ampersand => "AMPERSAND"
  | asterisk => "ASTERISK"
  | atSign => "AT"
  | backslash => "BACKSLASH"
  | backtick => "BACKTICK"
  | caret => "CARET"
  | colon => "COLON"
  | comma => "COMMA"
  | dollar => "DOLLAR"
  | doubleQuote => "DOUBLE_QUOTE"
  | equal => "EQUAL"
  | exclamation => "EXCLAMATION"
  | forwardSlash => "FORWARD_SLASH"
  | greaterThan => "GREATER_THAN"
  | hash => "HASH"
  | hyphen => "HYPHEN"
  | lessThan => "LESS_THAN"
  | percent => "PERCENT"
  | period => "PERIOD"
  | pipe => "PIPE"
  | plus => "PLUS"
  | question => "QUESTION"
  | semicolon => "SEMICOLON"
  | singleQuote => "SINGLE_QUOTE"
  | tilde => "TILDE"
  | underscore => "UNDERSCORE"
  | openParen => "OPEN_PAREN"
  | closeParen => "CLOSE_PAREN"
  | openBracket => "OPEN_BRACKET"
  | closeBracket => "CLOSE_BRACKET"
  | openBrace => "OPEN_BRACE"
  | closeBrace => "CLOSE_BRACE"
  | word => "WORD"

def ofName? (s : String) : Option TokenKind :=
  all.find? fun k => k.name == s

/-- The marks: the characters that are tokens of a kind of their own. -/
def marks : List (Char × TokenKind) :=
  [('\u2022', bullet), ('\u2023', triangularBullet), ('\u2043', hyphenBullet), ('!', exclamation),
    ('\x22', doubleQuote), ('#', hash), ('$', dollar), ('%', percent), ('&', ampersand),
    ('\x27', singleQuote), ('(', openParen), (')', closeParen), ('*', asterisk), ('+', plus), (',', comma),
    ('-', hyphen), ('.', period), ('/', forwardSlash), (':', colon), (';', semicolon), ('<', lessThan),
    ('=', equal), ('>', greaterThan), ('?', question), ('@', atSign), ('[', openBracket),
    ('\\', backslash), (']', closeBracket), ('^', caret), ('_', underscore), ('\x60', backtick),
    ('\x7b', openBrace), ('|', pipe), ('\x7d', closeBrace), ('~', tilde)]

def ofMark? (c : Char) : Option TokenKind :=
  marks.lookup c

/-- The ASCII punctuation marks: each of them can adorn a section title. -/
def adornmentChars : Text :=
  (marks.map (·.1)).filter fun c => c.toNat < 0x80

/-- A cell adorns when it is one adornment character. -/
def isAdornmentCell : Text → Bool
  | [c] => adornmentChars.contains c
  | _ => false

/-- The kinds that can open an item of a bullet list. -/
def bullets : List TokenKind :=
  [asterisk, plus, hyphen, bullet, triangularBullet, hyphenBullet]

/-- The kinds of the marks that can adorn a section title. -/
def adornments : List TokenKind :=
  adornmentChars.filterMap ofMark?

/-- The kinds that can be part of a reference name. -/
def references : List TokenKind :=
  [word, hyphen, underscore, period, colon, plus]

/-- The opening brackets, each with the bracket that closes it. -/
def brackets : List (TokenKind × TokenKind) :=
  [(openParen, closeParen), (openBracket, closeBracket), (openBrace, closeBrace)]

end TokenKind
end Lexeme
