import Lexeme.Failure

/-! # The log

What sources and streams report about themselves. Each event belongs to a channel, and all channels lie
under one root. -/

namespace Lexeme

inductive LogEvent where
  | opened (source : String)
  | surfaced (error : ReadError)
  | readFailed (source : String) (lines : Nat)
  | exhausted (source : String) (lines : Nat)
deriving DecidableEq, Repr

namespace LogEvent

/-- The channel under which all others lie. -/
def rootChannel : String := "rstlex"

/-- A channel's full name: the root's, or one under it, as it is; any other put under the root. -/
def channelName (name : String) : String :=
  if name = rootChannel ∨ (rootChannel ++ ".").toList.isPrefixOf name.toList then name
  else rootChannel ++ "." ++ name

/-- The channel of an event: streams have one, sources another. -/
def channel : LogEvent → String
  | opened _ => channelName "lexer.core"
  | surfaced _ => channelName "lexer.core"
  | readFailed .. => channelName "source"
  | exhausted .. => channelName "source"

def message : LogEvent → String
  | opened source => "Opened token stream over " ++ source
  | surfaced error => "Read error surfaced from " ++ error.source ++ ": " ++ error.cause.message
  | readFailed source lines => "Read failed in " ++ source ++ s!" after {lines} lines"
  | exhausted source lines => "Source " ++ source ++ s!" exhausted after {lines} lines"

/-- An event as a line of the log. -/
def line (e : LogEvent) : String :=
  "DEBUG " ++ e.channel ++ ": " ++ e.message

end LogEvent
end Lexeme
