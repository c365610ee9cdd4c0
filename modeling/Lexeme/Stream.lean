import Lexeme.Stream.Chars
import Lexeme.Stream.Held

/-! # Token streams

A token stream gives the tokens of a source, one to a pull, taking as few characters as it can. When reading
fails while a token is held, the token is given out first and the error is owed to the next pull, or the
token is dropped and the error shown at once, as the settings said when the stream was opened. A failure
that is not one of reading passes through and leaves the stream as it is. -/

namespace Lexeme

/-- How far a stream has come. -/
inductive StreamState where
  | idle
  | buffered
  | exhausted
deriving DecidableEq, Repr

namespace StreamState

def all : List StreamState :=
  [idle, buffered, exhausted]

def name : StreamState → String
  | idle => "IDLE"
  | buffered => "BUFFERED"
  | exhausted => "EXHAUSTED"

end StreamState

/-- A stream of tokens: the characters to come, what is held back, the read error that is owed, whether the
    input has ended or failed, and the policy for errors. -/
structure TokenStream where
  chars : CharStream
  held : Option Held := none
  owed : Option ReadError := none
  exhausted : Bool := false
  flushOnError : Bool

namespace TokenStream

/-- Opens a stream over a source under the active settings, which is reported. -/
def ofSource (s : Source) (config : Config) : Except SourceError (TokenStream × Source × LogEvent) :=
  match CharStream.ofSource s with
  | .error error => .error error
  | .ok (chars, rest) => .ok ({ chars, flushOnError := config.flushOnError }, rest, .opened s.name)

/-- A stream that owes an error or holds a token is buffered, though an exhausted one only by owing. -/
def state (s : TokenStream) : StreamState :=
  if s.owed.isSome then .buffered
  else if s.exhausted then .exhausted
  else if s.held.isSome then .buffered
  else .idle

/-- What a stream replies when there is no further character. -/
def halt (s : TokenStream) (stop : Stop) (log : List LogEvent) (chars : CharStream) : Reply TokenStream Item :=
  match stop with
  | .interrupted failure => ⟨.stop (.interrupted failure), log, { s with chars }⟩
  | .finished =>
    let ended := { s with chars, held := none, exhausted := true }
    match s.held with
    | none => ⟨.stop .finished, log, ended⟩
    | some held => ⟨held.release, log, ended⟩
  | .failed error =>
    let ended := { s with chars, held := none, exhausted := true }
    let log := log ++ [.surfaced error]
    match s.held, s.flushOnError with
    | some held, true => ⟨held.release, log, { ended with owed := some error }⟩
    | _, _ => ⟨.stop (.failed error), log, ended⟩

/-- Takes characters until a token can be given out, or there are no more. -/
def advance (s : TokenStream) : Reply TokenStream Item :=
  let reply := s.chars.next
  match _h : reply.pull with
  | .stop stop => s.halt stop reply.log reply.next
  | .item (c, l) =>
    match Held.meet s.held c l with
    | (held, some out) => ⟨out.release, reply.log, { s with chars := reply.next, held }⟩
    | (held, none) => (advance { s with chars := reply.next, held }).after reply.log
termination_by s.chars.delivery.text.length
decreasing_by
  have := (CharStream.next_item _h).1
  simp [this, Delivery.after]

/-- Without a further character, a stream halts. -/
theorem advance_of_stop {s : TokenStream} {stop : Stop} (h : s.chars.next.pull = .stop stop) :
    s.advance = s.halt stop s.chars.next.log s.chars.next.next := by
  rw [advance]
  split
  · next h' => rw [h] at h'; cases h'; rfl
  · next h' => rw [h] at h'; cases h'

/-- A character that makes the stream give something out ends the pull. -/
theorem advance_of_release {s : TokenStream} {c : Char} {l : SourceLocation} {held : Option Held} {out : Held}
    (h : s.chars.next.pull = .item (c, l)) (hm : Held.meet s.held c l = (held, some out)) :
    s.advance = ⟨out.release, s.chars.next.log, { s with chars := s.chars.next.next, held }⟩ := by
  rw [advance]
  split
  · next h' => rw [h] at h'; cases h'
  · next h' => rw [h] at h'; cases h'; simp [hm]

/-- After a character that makes it give nothing out, the stream goes on with what it holds now. -/
theorem advance_of_hold {s : TokenStream} {c : Char} {l : SourceLocation} {held : Option Held}
    (h : s.chars.next.pull = .item (c, l)) (hm : Held.meet s.held c l = (held, none)) :
    s.advance = (advance { s with chars := s.chars.next.next, held }).after s.chars.next.log := by
  rw [advance]
  split
  · next h' => rw [h] at h'; cases h'
  · next h' => rw [h] at h'; cases h'; simp [hm]

/-- Pulls one token: an error that is owed first, and nothing after the end. -/
def next (s : TokenStream) : Reply TokenStream Item :=
  match s.owed with
  | some error => ⟨.stop (.failed error), [], { s with owed := none }⟩
  | none => if s.exhausted then ⟨.stop .finished, [], s⟩ else s.advance

/-- A number of pulls that is enough to come to the end: each pull but four takes a character. -/
def drainBudget (d : Delivery) : Nat :=
  d.text.length + 4

def drain (s : TokenStream) : List (Reply TokenStream Item) :=
  drainWith next (drainBudget s.chars.delivery) s

/-- A stream over a text in memory, where nothing can fail. -/
def ofText (name : String) (text : Text) : TokenStream :=
  { chars := ⟨Origin.start ⟨name, some text⟩, .memory text⟩, flushOnError := true }

end TokenStream

def tokenize (name : String) (text : Text) : List Item :=
  (TokenStream.ofText name text).drain.filterMap (·.pull.item?)

end Lexeme
