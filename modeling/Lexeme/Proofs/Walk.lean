import Lexeme.Position.Location
import Mathlib.Data.List.DropRight

/-! # Where a walk over a text ends

A walk adds a row for each line feed and counts the characters of the row it is in. So its end depends on
three numbers of the text only: the line feeds, the characters after the last of them, and all characters
(`walk_eq`). -/

namespace Lexeme

namespace Text

/-- The number of characters after the last line feed of a text, or of all if there is none. -/
def lastRowLength (t : Text) : Nat :=
  (t.rtakeWhile (· != '\n')).length

theorem lastRowLength_append_lineFeed (t : Text) : lastRowLength (t ++ ['\n']) = 0 := by
  rw [lastRowLength, List.rtakeWhile_concat_neg _ _ _ (by simp), List.length_nil]

theorem lastRowLength_append_of_ne {c : Char} (hc : c ≠ '\n') (t : Text) :
    lastRowLength (t ++ [c]) = t.lastRowLength + 1 := by
  rw [lastRowLength, List.rtakeWhile_concat_pos _ _ _ (by simpa using hc), List.length_append,
    List.length_singleton, lastRowLength]

theorem lastRowLength_of_not_mem {t : Text} (h : '\n' ∉ t) : t.lastRowLength = t.length := by
  have hall : ∀ c ∈ t, (c != '\n') = true := by
    intro c hc
    have hne : c ≠ '\n' := fun e => h (e ▸ hc)
    simpa using hne
  rw [lastRowLength, List.rtakeWhile_eq_self_iff.mpr hall]

end Text

namespace Location

/-- The place that a text leads to from the beginning. -/
def afterText (t : Text) : Location :=
  ⟨t.count '\n', t.lastRowLength, t.length⟩

theorem walk_append_singleton (l : Location) (t : Text) (c : Char) :
    l.walk (t ++ [c]) = (l.walk t).after [c] := by
  rw [walk_append, walk_cons, walk_nil]

theorem walk_eq (l : Location) (t : Text) :
    l.walk t = ⟨l.row + t.count '\n', if '\n' ∈ t then t.lastRowLength else l.column + t.length,
      l.offset + t.length⟩ := by
  -- From the end of the text: its last character decides what becomes of the column.
  induction t using List.reverseRecOn with
  | nil => simp
  | append_singleton t c ih =>
    rw [walk_append_singleton, ih]
    by_cases hc : c = '\n'
    · subst hc
      simp [after, Text.lastRowLength_append_lineFeed, Int.add_assoc]
    · have hc' : '\n' ≠ c := fun e => hc e.symm
      by_cases ht : '\n' ∈ t
      · simp [after, hc, ht, Text.lastRowLength_append_of_ne hc, Int.add_assoc]
      · simp [after, hc, hc', ht, Int.add_assoc]

theorem walk_zero (t : Text) : zero.walk t = afterText t := by
  rw [walk_eq, afterText]
  by_cases h : '\n' ∈ t
  · simp [h, zero]
  · simp [h, zero, Text.lastRowLength_of_not_mem h]

end Location
end Lexeme
