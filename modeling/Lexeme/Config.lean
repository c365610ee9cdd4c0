import Lexeme.Text.Quoted

/-! # Settings

A source takes the settings for decoding when it is made, a stream the policy for errors when it is opened.
The active settings can be replaced, put back to the defaults, and replaced for the duration of a context:
whatever happens inside, leaving a context makes active again what was active when it was entered. -/

namespace Lexeme

/-- The settings: an encoding and a handler of malformed octets by name, and whether a held token is given
    out before a read error is. -/
structure Config where
  encoding : String := "utf-8"
  decodeErrors : String := "strict"
  flushOnError : Bool := true
deriving DecidableEq, Repr

/-- The value that is written for a setting. -/
inductive SettingValue where
  | text (s : String)
  | flag (b : Bool)
deriving DecidableEq, Repr

namespace Config

/-- The settings with one of them, given by its name, replaced; a name that no setting has changes
    nothing. -/
def set (c : Config) (entry : String × SettingValue) : Config :=
  match entry with
  | ("encoding", .text s) => { c with encoding := s }
  | ("decode_errors", .text s) => { c with decodeErrors := s }
  | ("flush_on_error", .flag b) => { c with flushOnError := b }
  | _ => c

/-- The defaults with some settings replaced. -/
def ofEntries (entries : List (String × SettingValue)) : Config :=
  entries.foldl set {}

def describe (c : Config) : String :=
  "LexConfig(encoding=" ++ Text.quoteString c.encoding ++ ", decode_errors=" ++
    Text.quoteString c.decodeErrors ++ ", flush_on_error=" ++ (if c.flushOnError then "True" else "False") ++
    ")"

end Config

/-- The active settings, and what each context that has been entered and not left will put back, the
    innermost first. -/
structure ConfigState where
  active : Config := {}
  saved : List Config := []
deriving DecidableEq, Repr

namespace ConfigState

def set (s : ConfigState) (c : Config) : ConfigState :=
  { s with active := c }

def reset (s : ConfigState) : ConfigState :=
  s.set {}

/-- Enters a context with its own settings. -/
def enter (s : ConfigState) (c : Config) : ConfigState :=
  { active := c, saved := s.active :: s.saved }

/-- Leaves the innermost context, normally or by a failure, which makes no difference here; outside of any
    context nothing happens. -/
def leave (s : ConfigState) : ConfigState :=
  match s.saved with
  | [] => s
  | c :: rest => { active := c, saved := rest }

end ConfigState
end Lexeme
