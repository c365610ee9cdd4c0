import Lexeme.Stream

/-! # Cursors

Whoever has opened a source pulls it through a cursor: a token stream, characters with their locations, or
the bare characters. -/

namespace Lexeme

inductive Cursor where
  | tokens (s : TokenStream)
  | chars (s : CharStream)
  | bare (f : Feed)

inductive Given where
  | item (i : Item)
  | placed (c : Char) (l : SourceLocation)
  | char (c : Char)

def Given.span? : Given → Option SourceSpan
  | item i => some i.span
  | _ => none

namespace Cursor

def next : Cursor → Reply Cursor Given
  | tokens s => s.next.map tokens .item
  | chars s => s.next.map chars fun p => .placed p.1 p.2
  | bare f => f.next.map bare .char

def feed : Cursor → Feed
  | tokens s => s.chars.feed
  | chars s => s.feed
  | bare f => f

/-- Closes what a cursor reads from. -/
def close (message : String) : Cursor → Cursor
  | tokens s => tokens { s with chars := { s.chars with feed := s.chars.feed.close message } }
  | chars s => chars { s with feed := s.feed.close message }
  | bare f => bare (f.close message)

def pull (count : Nat) (c : Cursor) : List (Reply Cursor Given) :=
  pullWith next count c

def drain (c : Cursor) : List (Reply Cursor Given) :=
  drainWith next (TokenStream.drainBudget c.feed.delivery) c

end Cursor

/-- What can be seen of a pull: what it gives, and of the cursor after it the state of the stream, the
    location of the next character, and the number of reads made. -/
structure Observation where
  pull : Pull Given
  state : Option StreamState
  place : Option SourceLocation
  reads : Option Nat

def Reply.observe (r : Reply Cursor Given) : Observation where
  pull := r.pull
  state := match r.next with
    | .tokens s => some s.state
    | _ => none
  place := match r.next with
    | .chars s => some s.place
    | _ => none
  reads := r.next.feed.reads?

end Lexeme
