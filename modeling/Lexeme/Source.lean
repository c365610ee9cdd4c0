import Lexeme.Config
import Lexeme.Source.Feed
import Lexeme.Source.Origin

/-! # Sources

A source is a named place that a text comes from: a text in memory, or a reader. It hands out its
characters once. Whoever takes them takes the feed out of the source, so that there is one owner of it, and
every later attempt finds none. -/

namespace Lexeme

inductive SourceState where
  | available
  | consumed
deriving DecidableEq, Repr

namespace SourceState

def all : List SourceState :=
  [available, consumed]

def name : SourceState → String
  | available => "AVAILABLE"
  | consumed => "CONSUMED"

end SourceState

/-- What a reader reads from: octets or text in lines, or reads given one by one. -/
inductive ReaderInput where
  | octets (all : List Octet)
  | text (all : Text)
  | script (reads : List Read)

namespace ReaderInput

/-- A list cut after every occurrence of a mark. -/
def cutAfter {α : Type} [BEq α] (mark : α) : List α → List (List α)
  | [] => []
  | a :: rest =>
    if a == mark then [a] :: cutAfter mark rest
    else match cutAfter mark rest with
      | [] => [[a]]
      | line :: lines => (a :: line) :: lines

/-- The reads that an input gives. Lines of octets end after a line feed octet, lines of text after a line
    feed; the end of a text is an empty read of text. -/
def reads : ReaderInput → List Read
  | octets all => (cutAfter 0x0a all).map .octets
  | text all => (cutAfter '\n' all).map .text ++ [.text []]
  | script reads => reads

def closedMessage : ReaderInput → String
  | octets _ => "I/O operation on closed file."
  | text _ => "I/O operation on closed file"
  | script _ => "I/O operation on closed file."

end ReaderInput

/-- A source: what positions in it need to know, the encoding if it has one, and its feed until that is
    taken. -/
structure Source where
  origin : Origin
  encoding : Option String
  unread : Option Feed

namespace Source

def ofText (name : String) (text : Text) : Source :=
  ⟨⟨name, some text⟩, none, some (.memory text)⟩

/-- A name that is given and not empty, or else the one that the settings have. -/
def nameOr (given : Option String) (setting : String) : String :=
  match given with
  | none => setting
  | some name => if name.isEmpty then setting else name

/-- A source over a reader, with the encoding and the handler that are active where none is given. -/
def ofReader (codecs : Codecs) (name : String) (input : ReaderInput) (encoding errors : Option String)
    (config : Config) : Source :=
  let encoding := nameOr encoding config.encoding
  let errors := nameOr errors config.decodeErrors
  ⟨⟨name, none⟩, some encoding, some (.reader { name, codecs, encoding, errors, script := input.reads })⟩

def name (s : Source) : String :=
  s.origin.name

def state (s : Source) : SourceState :=
  if s.unread.isSome then .available else .consumed

/-- Takes the characters of a source, leaving it consumed. -/
def take? (s : Source) : Option (Feed × Source) :=
  s.unread.map fun feed => (feed, { s with unread := none })

/-- Closes what a source reads from, as long as its characters are not taken. -/
def close (s : Source) (message : String) : Source :=
  { s with unread := s.unread.map (Feed.close message) }

def describe (s : Source) : String :=
  (if s.encoding.isNone then "TextSource(" else "ReaderSource(") ++ Text.quoteString s.name ++ ", " ++
    s.state.name ++ ")"

end Source
end Lexeme
