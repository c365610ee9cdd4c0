import Lexeme.Source.Error

/-! # Origins

The origin of a position is what a position needs to know of its source: the name, and the text where the
source keeps it. Reading from the source changes neither, so an excerpt is the same at any time. -/

namespace Lexeme

/-- A source by its name and the text that it keeps, if it keeps it. -/
structure Origin where
  name : String
  kept : Option Text
deriving DecidableEq, Repr

namespace Origin

/-- The text that a span covers, by the offsets of the span alone. -/
def excerpt (o : Origin) (s : Span) : Except SourceError Text :=
  match o.kept with
  | none => .error (.noExcerpt o.name s .discarded)
  | some text =>
    match text.slice? s.start.offset s.stop.offset with
    | none => .error (.noExcerpt o.name s .outside)
    | some part => .ok part

section
variable {o : Origin} {t part : Text} {s : Span}

theorem excerpt_eq_ok_iff (ho : o.kept = some t) :
    o.excerpt s = .ok part ↔ t.slice? s.start.offset s.stop.offset = some part := by
  unfold excerpt
  rw [ho]
  cases h : t.slice? s.start.offset s.stop.offset <;> simp [h]

/-- A source that keeps its text refuses a span for one reason only. -/
theorem excerpt_eq_error_iff (ho : o.kept = some t) :
    o.excerpt s = .error (.noExcerpt o.name s .outside) ↔ t.slice? s.start.offset s.stop.offset = none := by
  unfold excerpt
  rw [ho]
  cases h : t.slice? s.start.offset s.stop.offset <;> simp [h]

end
end Origin
end Lexeme
