import Lexeme.Position.Location

/-! # Spans

A span runs from a location up to another, which it leaves out. That the second is not before the first is
not asked for. Spans are ordered by their starts, then by their stops. -/

namespace Lexeme

/-- A stretch of a text between two locations. -/
structure Span where
  start : Location := {}
  stop : Location := {}
deriving DecidableEq, Repr

def Location.spanTo (l stop : Location) : Span :=
  ⟨l, stop⟩

namespace Span

/-- The number of characters covered: the difference of the offsets. -/
def length (s : Span) : Int :=
  s.stop.offset - s.start.offset

/-- The span of a walk is as long as the text walked over. -/
theorem length_spanTo_walk (l : Location) (t : Text) : (l.spanTo (l.walk t)).length = t.length := by
  show (l.walk t).offset - l.offset = t.length
  rw [Location.offset_walk]
  omega

/-- The span of the one cell after a span. -/
def after (s : Span) (cell : Text) : Span :=
  ⟨s.stop, s.stop.after cell⟩

/-- The span from the start of a span up to a location. -/
def spanTo (s : Span) (stop : Location) : Span :=
  ⟨s.start, stop⟩

/-- A span grown by one cell at its end. -/
def extend (s : Span) (cell : Text) : Span :=
  ⟨s.start, s.stop.after cell⟩

/-- A location lies in a span when its offset does: from the start on, before the stop. -/
instance : Membership Location Span where
  mem s l := s.start.offset ≤ l.offset ∧ l.offset < s.stop.offset

theorem mem_iff {s : Span} {l : Location} : l ∈ s ↔ s.start.offset ≤ l.offset ∧ l.offset < s.stop.offset :=
  Iff.rfl

instance (s : Span) (l : Location) : Decidable (l ∈ s) :=
  decidable_of_iff _ mem_iff.symm

instance : Ord Span where
  compare a b := (compare a.start b.start).then (compare a.stop b.stop)

instance : LT Span := ltOfOrd

instance : LE Span := leOfOrd

def label (s : Span) : String :=
  s.start.label ++ ".." ++ s.stop.label

def describe (s : Span) : String :=
  "Span(start=" ++ s.start.describe ++ ", end=" ++ s.stop.describe ++ ")"

end Span
end Lexeme
