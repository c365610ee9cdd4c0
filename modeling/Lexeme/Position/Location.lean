import Lexeme.Text

/-! # Locations

A location is a place between two characters of a text: its row, its column in the row, and how many
characters come before it, all counted from zero. Walking over a text moves a location forward; only a line
end starts a new row. Locations are ordered by row, then column, then offset. -/

namespace Lexeme

structure Location where
  row : Int := 0
  column : Int := 0
  offset : Int := 0
deriving DecidableEq, Repr

namespace Location

def zero : Location :=
  {}

/-- The location after a cell: one place further, and at the start of the next row if the cell ends a
    line. -/
def after (l : Location) (cell : Text) : Location :=
  if cell.isLineEnd then ⟨l.row + 1, 0, l.offset + 1⟩ else ⟨l.row, l.column + 1, l.offset + 1⟩

/-- The location after the characters of a text, one by one. -/
def walk (l : Location) (t : Text) : Location :=
  t.foldl (fun l c => l.after [c]) l

@[simp] theorem walk_nil (l : Location) : l.walk [] = l := rfl

@[simp] theorem walk_cons (l : Location) (c : Char) (t : Text) : l.walk (c :: t) = (l.after [c]).walk t := rfl

theorem walk_append (l : Location) (s t : Text) : l.walk (s ++ t) = (l.walk s).walk t := by
  simp [walk]

@[simp] theorem offset_after (l : Location) (cell : Text) : (l.after cell).offset = l.offset + 1 := by
  unfold after
  split <;> rfl

@[simp] theorem offset_walk (l : Location) (t : Text) : (l.walk t).offset = l.offset + t.length := by
  induction t generalizing l with
  | nil => simp
  | cons c t ih =>
    simp only [walk_cons, ih, offset_after, List.length_cons]
    omega

instance : Ord Location where
  compare a b := (compare a.row b.row).then ((compare a.column b.column).then (compare a.offset b.offset))

instance : LT Location := ltOfOrd

instance : LE Location := leOfOrd

def label (l : Location) : String :=
  s!"{l.row}:{l.column}"

def describe (l : Location) : String :=
  s!"Location(row={l.row}, column={l.column}, offset={l.offset})"

end Location
end Lexeme
