import Lexeme.Position.Qualified
import Lexeme.Source.Pull
import Lexeme.Text.Builder
import Lexeme.Token

/-! # The held token

A word can be given out only once the character after it has been seen. So a stream holds back one token: a
word that is still growing, or a finished token that followed a word. `Held.meet` says what a character does
to what is held; nothing is held before the first character of a word, and from then on something always
is. -/

namespace Lexeme

structure Item where
  token : Token
  span : SourceSpan

/-- What a stream holds back, with the span it covers so far. -/
inductive Held where
  | token (t : Token) (span : SourceSpan)
  | word (builder : Text.Builder) (span : SourceSpan)

namespace Held

def span : Held → SourceSpan
  | token _ span => span
  | word _ span => span

def text : Held → Text
  | token t _ => t.value
  | word builder _ => builder.build

/-- Gives out what is held; a word is finished by that. -/
def release : Held → Pull Item
  | token t span => .item ⟨t, span⟩
  | word builder span =>
    match Token.word? builder.build with
    | some t => .item ⟨t, span⟩
    | none => .stop (.interrupted .emptyWord)

/-- The word that a character begins. -/
def beginWord (c : Char) (l : SourceLocation) : Held :=
  word (.ofText [c]) (SourceLocation.cellSpan l [c])

/-- The word that a character continues. -/
def growWord (builder : Text.Builder) (span : SourceSpan) (c : Char) : Held :=
  word (builder.push c) (SourceSpan.extend span [c])

/-- What is held after a character, and what is given out because of it. -/
def meet (held : Option Held) (c : Char) (l : SourceLocation) : Option Held × Option Held :=
  match Token.ofChar? c, held with
  | none, some (word builder span) => (some (growWord builder span c), none)
  | none, held => (some (beginWord c l), held)
  | some t, some h => (some (token t (SourceLocation.cellSpan l [c])), some h)
  | some t, none => (none, some (token t (SourceLocation.cellSpan l [c])))

end Held
end Lexeme
