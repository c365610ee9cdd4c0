import Lexeme.Position.Qualified
import Lexeme.Source

/-! # Characters with their locations

The characters of a source, each with the location at which it stands. The location moves on with every
character that is given, and only then. -/

namespace Lexeme

/-- Characters still to come, and the location of the first of them. -/
structure CharStream where
  place : SourceLocation
  feed : Feed

namespace CharStream

/-- Takes the characters of a source; a second attempt is an error. -/
def ofSource (s : Source) : Except SourceError (CharStream × Source) :=
  match s.take? with
  | none => .error (.consumed s.name)
  | some (feed, s) => .ok (⟨s.origin.start, feed⟩, s)

/-- Pulls one character with its location. -/
def next (s : CharStream) : Reply CharStream (Char × SourceLocation) :=
  let reply := s.feed.next
  match reply.pull with
  | .item c => ⟨.item (c, s.place), reply.log, ⟨SourceLocation.after s.place [c], reply.next⟩⟩
  | .stop stop => ⟨.stop stop, reply.log, ⟨s.place, reply.next⟩⟩

def delivery (s : CharStream) : Delivery :=
  s.feed.delivery

/-- A pull that gives a character takes it off the delivery, at the place of the stream. -/
theorem next_item {s : CharStream} {c : Char} {l : SourceLocation} (h : s.next.pull = .item (c, l)) :
    s.delivery = s.next.next.delivery.after [c] ∧ l = s.place ∧
      s.next.next.place = SourceLocation.after s.place [c] := by
  cases hp : s.feed.next.pull with
  | item d =>
    simp only [next, hp, Pull.item.injEq, Prod.mk.injEq] at h
    obtain ⟨rfl, rfl⟩ := h
    simpa [next, hp, delivery] using Feed.delivery_next_item hp
  | stop stop => simp [next, hp] at h

end CharStream
end Lexeme
