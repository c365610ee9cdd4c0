import Lexeme.Failure
import Lexeme.Position.Span

/-! # What a source refuses

A source hands out its characters once; reading from it may fail; and not every source can give back the
text of a span. -/

namespace Lexeme

/-- Why the text of a span cannot be given. -/
inductive ExcerptReason where
  | outside
  | discarded
  | other (text : String)
deriving DecidableEq, Repr

def ExcerptReason.message : ExcerptReason → String
  | outside => "span lies outside the source text"
  | discarded => "line-buffered readers discard consumed input"
  | other text => text

inductive SourceError where
  | consumed (source : String)
  | unreadable (error : ReadError)
  | noExcerpt (source : String) (span : Span) (reason : ExcerptReason)
deriving DecidableEq, Repr

namespace SourceError

/-- The name of the source that an error is about. -/
def source : SourceError → String
  | consumed source => source
  | unreadable error => error.source
  | noExcerpt source _ _ => source

def message : SourceError → String
  | consumed source => "Couldn't read chars from " ++ source ++ ": source already consumed"
  | unreadable error => error.message
  | noExcerpt source span reason =>
    source ++ "[" ++ span.label ++ "]: excerpt unavailable (" ++ reason.message ++ ")"

end SourceError
end Lexeme
