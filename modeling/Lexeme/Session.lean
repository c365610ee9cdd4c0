import Lexeme.Cursor

/-! # Sessions

A session holds sources and cursors under names, the settings, and the codecs that readers know. Commands
make sources, open cursors over them, pull these in any interleaving, ask for excerpts, and change the
settings; every command has one answer and may report something to the log. A name can be given again: the
newest source of a name is meant, and a cursor stays with the source that it was opened over. The last span
given under a name is kept also when another cursor takes the name. -/

namespace Lexeme

/-- A source in a session: its name there, a key that no other has, and what reading says once closed. -/
structure SourceEntry where
  id : String
  key : Nat
  source : Source
  closedMessage : String

/-- A cursor in a session: its name there, and the key of its source. -/
structure CursorEntry where
  id : String
  key : Nat
  cursor : Cursor

/-- Sources, the newest first; cursors, one of a name; the last span given under each name that any was given
    under; the settings; and the codecs. -/
structure Session where
  sources : List SourceEntry := []
  cursors : List CursorEntry := []
  lastSpans : List (String × SourceSpan) := []
  config : ConfigState := {}
  codecs : Codecs := .standard

/-- What to open over a source. -/
inductive Opening where
  | tokens
  | chars
  | bare
deriving DecidableEq, Repr

inductive Command where
  | makeText (id name : String) (text : Text)
  | makeReader (id name : String) (input : ReaderInput) (encoding errors : Option String)
  | close (id : String)
  | describe (id : String)
  | openCursor (what : Opening) (id source : String)
  | pull (id : String) (count : Nat)
  | drain (id : String)
  | state (id : String)
  | excerpt (id : String) (span : Span)
  | lastExcerpt (id : String)
  | setConfig (config : Config)
  | enterConfig (config : Config)
  | leaveConfig (failing : Bool)
  | resetConfig
  | showConfig
  | channel (name : String)

inductive Answer where
  | done
  | nothing
  | truth (b : Bool)
  | shown (text : String)
  | text (t : Text)
  | state (s : StreamState)
  | source (s : Source)
  | pulls (seen : List Observation)
  | refused (error : SourceError)
  | unknown (id : String)

/-- An answer, what is reported meanwhile, and the session after it. -/
structure Response where
  answer : Answer
  log : List LogEvent := []
  next : Session

namespace Session

def source? (s : Session) (id : String) : Option SourceEntry :=
  s.sources.find? fun e => e.id == id

def cursor? (s : Session) (id : String) : Option CursorEntry :=
  s.cursors.find? fun e => e.id == id

/-- Adds a source under a fresh key. -/
def addSource (s : Session) (id : String) (source : Source) (closedMessage : String) : Session :=
  { s with sources := ⟨id, s.sources.length, source, closedMessage⟩ :: s.sources }

def putSource (s : Session) (key : Nat) (source : Source) : Session :=
  { s with sources := s.sources.map fun e => if e.key = key then { e with source } else e }

/-- Adds a cursor, or replaces the one of its name. -/
def putCursor (s : Session) (e : CursorEntry) : Session :=
  { s with cursors := e :: s.cursors.filter fun old => old.id != e.id }

/-- Notes the last of some spans given under a name, if there is any. -/
def noteSpans (s : Session) (id : String) (spans : List SourceSpan) : Session :=
  match spans.getLast? with
  | none => s
  | some span => { s with lastSpans := (id, span) :: s.lastSpans.filter fun old => old.1 != id }

/-- Closes what a source reads from, whoever holds its feed. -/
def close (s : Session) (e : SourceEntry) : Session :=
  { s.putSource e.key (e.source.close e.closedMessage) with
    cursors := s.cursors.map fun c =>
      if c.key = e.key then { c with cursor := c.cursor.close e.closedMessage } else c }

def openTokens (s : Session) (id : String) (e : SourceEntry) : Response :=
  match TokenStream.ofSource e.source s.config.active with
  | .error error => ⟨.refused error, [], s⟩
  | .ok (stream, source, opened) =>
    ⟨.state stream.state, [opened], (s.putSource e.key source).putCursor ⟨id, e.key, .tokens stream⟩⟩

/-- Opens characters with their locations. -/
def openChars (s : Session) (id : String) (e : SourceEntry) : Response :=
  match CharStream.ofSource e.source with
  | .error error => ⟨.refused error, [], s⟩
  | .ok (stream, source) =>
    ⟨.shown (SourceLocation.label stream.place), [],
      (s.putSource e.key source).putCursor ⟨id, e.key, .chars stream⟩⟩

/-- Opens the bare characters; that they are taken is no error here. -/
def openBare (s : Session) (id : String) (e : SourceEntry) : Response :=
  match e.source.take? with
  | none => ⟨.nothing, [], s⟩
  | some (feed, source) =>
    ⟨.truth true, [], (s.putSource e.key source).putCursor ⟨id, e.key, .bare feed⟩⟩

/-- Keeps a cursor as it is after its replies, and answers what was seen of them. -/
def replied (s : Session) (e : CursorEntry) (replies : List (Reply Cursor Given)) : Response :=
  let spans := replies.filterMap fun r => r.pull.item?.bind Given.span?
  let e := { e with cursor := Reply.lastState e.cursor replies }
  ⟨.pulls (replies.map Reply.observe), replies.flatMap (·.log), (s.putCursor e).noteSpans e.id spans⟩

/-- Answers with a text, or with the error instead of one. -/
def excerptAnswer : Except SourceError Text → Answer
  | .ok t => .text t
  | .error error => .refused error

def withSource (s : Session) (id : String) (answer : SourceEntry → Response) : Response :=
  match s.source? id with
  | none => ⟨.unknown id, [], s⟩
  | some e => answer e

def withCursor (s : Session) (id : String) (answer : CursorEntry → Response) : Response :=
  match s.cursor? id with
  | none => ⟨.unknown id, [], s⟩
  | some e => answer e

def step (s : Session) : Command → Response
  | .makeText id name text => ⟨.done, [], s.addSource id (.ofText name text) ""⟩
  | .makeReader id name input encoding errors =>
    let source := .ofReader s.codecs name input encoding errors s.config.active
    ⟨.done, [], s.addSource id source input.closedMessage⟩
  | .close id => s.withSource id fun e => ⟨.done, [], s.close e⟩
  | .describe id => s.withSource id fun e => ⟨.source e.source, [], s⟩
  | .openCursor .tokens id source => s.withSource source fun e => s.openTokens id e
  | .openCursor .chars id source => s.withSource source fun e => s.openChars id e
  | .openCursor .bare id source => s.withSource source fun e => s.openBare id e
  | .pull id count => s.withCursor id fun e => s.replied e (e.cursor.pull count)
  | .drain id => s.withCursor id fun e => s.replied e e.cursor.drain
  | .state id =>
    s.withCursor id fun e =>
      match e.cursor with
      | .tokens stream => ⟨.state stream.state, [], s⟩
      | _ => ⟨.unknown id, [], s⟩
  | .excerpt id span => s.withSource id fun e => ⟨excerptAnswer (e.source.origin.excerpt span), [], s⟩
  | .lastExcerpt id =>
    match s.lastSpans.lookup id with
    | some span => ⟨excerptAnswer (SourceSpan.excerpt span), [], s⟩
    | none => ⟨.unknown id, [], s⟩
  | .setConfig config => ⟨.done, [], { s with config := s.config.set config }⟩
  | .enterConfig config => ⟨.done, [], { s with config := s.config.enter config }⟩
  | .leaveConfig failing =>
    ⟨if failing then .truth false else .done, [], { s with config := s.config.leave }⟩
  | .resetConfig => ⟨.done, [], { s with config := s.config.reset }⟩
  | .showConfig => ⟨.shown s.config.active.describe, [], s⟩
  | .channel name => ⟨.shown (LogEvent.channelName name), [], s⟩

def run (s : Session) : List Command → List (Answer × List LogEvent)
  | [] => []
  | command :: rest =>
    let response := s.step command
    (response.answer, response.log) :: response.next.run rest

end Session
end Lexeme
