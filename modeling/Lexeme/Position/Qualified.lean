import Lexeme.Source.Origin
import Lexeme.Text.Quoted

/-! # Positions in a source

A location or span together with the source that it lies in. The source is carried along for what is shown
and for excerpts; comparisons look at the inner value only. -/

namespace Lexeme

/-- A value that lies in a source. -/
structure InSource (α : Type) where
  source : Origin
  inner : α
deriving Repr

abbrev SourceLocation := InSource Location

abbrev SourceSpan := InSource Span

namespace InSource

def map {α β : Type} (f : α → β) (x : InSource α) : InSource β :=
  ⟨x.source, f x.inner⟩

/-- Two values are the same when their inner values are, whatever their sources. -/
instance {α : Type} [BEq α] : BEq (InSource α) where
  beq x y := x.inner == y.inner

instance {α : Type} [Ord α] : Ord (InSource α) where
  compare x y := compare x.inner y.inner

end InSource

/-- The zero location of a source. -/
def Origin.start (o : Origin) : SourceLocation :=
  ⟨o, .zero⟩

namespace SourceLocation

/-- The location after a cell, in the same source. -/
def after (l : SourceLocation) (cell : Text) : SourceLocation :=
  l.map (·.after cell)

def spanTo (l : SourceLocation) (stop : Location) : SourceSpan :=
  l.map (·.spanTo stop)

/-- The span of the one cell at a location. -/
def cellSpan (l : SourceLocation) (cell : Text) : SourceSpan :=
  l.spanTo (l.inner.after cell)

def label (l : SourceLocation) : String :=
  l.source.name ++ "[" ++ l.inner.label ++ "]"

def describe (l : SourceLocation) : String :=
  "SourceLocation(" ++ Text.quoteString l.source.name ++ ", " ++ l.inner.label ++ ")"

end SourceLocation

namespace SourceSpan

/-- The span of the one cell after a span, in the same source. -/
def after (s : SourceSpan) (cell : Text) : SourceSpan :=
  s.map (·.after cell)

/-- The span from the start of a span up to a location, in the same source. -/
def spanTo (s : SourceSpan) (stop : Location) : SourceSpan :=
  s.map (·.spanTo stop)

/-- A span grown by one cell, in the same source. -/
def extend (s : SourceSpan) (cell : Text) : SourceSpan :=
  s.map (·.extend cell)

/-- The text of the source that a span covers. -/
def excerpt (s : SourceSpan) : Except SourceError Text :=
  s.source.excerpt s.inner

def label (s : SourceSpan) : String :=
  s.source.name ++ "[" ++ s.inner.label ++ "]"

def describe (s : SourceSpan) : String :=
  "SourceSpan(" ++ Text.quoteString s.source.name ++ ", " ++ s.inner.label ++ ")"

end SourceSpan
end Lexeme
