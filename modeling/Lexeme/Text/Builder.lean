import Lexeme.Text

/-! # Growing a text

A builder collects a text piece by piece at its end. It keeps the characters in reverse, so that a piece is
added in time proportional to the piece; `build` gives the text, and every operation is said through it. -/

namespace Lexeme.Text

/-- A text under construction, last character first. -/
structure Builder where
  reversed : Text
deriving DecidableEq, Repr

namespace Builder

def empty : Builder :=
  ⟨[]⟩

/-- A builder with one more piece at its end. -/
def append (b : Builder) (piece : Text) : Builder :=
  ⟨piece.reverseAux b.reversed⟩

/-- A builder with one more character at its end. -/
def push (b : Builder) (c : Char) : Builder :=
  b.append [c]

/-- A builder that starts with a piece. -/
def ofText (piece : Text) : Builder :=
  empty.append piece

def build (b : Builder) : Text :=
  b.reversed.reverse

def size (b : Builder) : Nat :=
  b.reversed.length

/-- A builder is inhabited once it holds a character. -/
def isInhabited (b : Builder) : Bool :=
  0 < b.size

@[simp] theorem build_empty : empty.build = [] := rfl

@[simp] theorem build_append (b : Builder) (piece : Text) : (b.append piece).build = b.build ++ piece := by
  simp [append, build, List.reverseAux_eq]

@[simp] theorem build_push (b : Builder) (c : Char) : (b.push c).build = b.build ++ [c] :=
  build_append b [c]

@[simp] theorem build_ofText (piece : Text) : (ofText piece).build = piece := by
  simp [ofText]

end Builder
end Lexeme.Text
