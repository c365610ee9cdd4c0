/-! # Text

A text is the list of its characters, so that what a text holds, where it is cut and how its parts are
put together are facts about lists. Names and messages, which are only ever printed, stay strings. A character
is a Unicode scalar value: texts with lone surrogates, which some readers and handlers could bring in, lie
outside what is described here. -/

namespace Lexeme

/-- A text: its characters in reading order. -/
abbrev Text := List Char

namespace Text

/-- A cell ends a line when it is exactly one line feed; a carriage return, or a longer cell that holds a
    line feed, does not. -/
def isLineEnd (cell : Text) : Bool :=
  cell == ['\n']

@[simp] theorem isLineEnd_singleton (c : Char) : isLineEnd [c] = (c == '\n') := by
  cases h : c == '\n' <;> simp_all [isLineEnd]

/-- The part of a text between two offsets, where they lie in order within the text. -/
def slice? (t : Text) (start stop : Int) : Option Text :=
  if 0 ≤ start ∧ start ≤ stop ∧ stop ≤ t.length then
    some ((t.drop start.toNat).take (stop - start).toNat)
  else none

theorem slice?_eq_none_iff {t : Text} {start stop : Int} :
    t.slice? start stop = none ↔ ¬(0 ≤ start ∧ start ≤ stop ∧ stop ≤ t.length) := by
  simp [slice?]

/-- The offsets of a slice count the characters before it, and those with it. -/
theorem slice?_eq_some_iff {t part : Text} {start stop : Int} :
    t.slice? start stop = some part ↔
      ∃ before after, t = before ++ part ++ after ∧ start = before.length ∧ stop = before.length + part.length := by
  unfold slice?
  constructor
  · intro h
    split at h
    · next hin =>
      obtain ⟨hstart, hle, hstop⟩ := hin
      obtain ⟨i, rfl⟩ := Int.eq_ofNat_of_zero_le hstart
      obtain ⟨n, hn⟩ := Int.eq_ofNat_of_zero_le (Int.sub_nonneg_of_le hle)
      simp only [hn, Int.toNat_natCast, Option.some.injEq] at h
      subst h
      refine ⟨t.take i, (t.drop i).drop n, ?_, ?_, ?_⟩
      · rw [List.append_assoc, List.take_append_drop, List.take_append_drop]
      · rw [List.length_take]
        omega
      · rw [List.length_take, List.length_take, List.length_drop]
        omega
    · cases h
  · rintro ⟨before, after, rfl, rfl, rfl⟩
    have hlength : ((before.length : Int) + part.length - before.length).toNat = part.length := by omega
    rw [if_pos, hlength, Int.toNat_natCast, List.append_assoc, List.drop_left, List.take_left]
    simp only [List.length_append]
    omega

/-- The beginning of a text that takes a number of octets in UTF-8, with U+FFFD in the place of a character
    that is cut through. -/
def clip : Nat → Text → Text
  | _, [] => []
  | room, c :: rest =>
    if c.utf8Size ≤ room then c :: clip (room - c.utf8Size) rest
    else if room = 0 then []
    else ['\ufffd']

def toString (t : Text) : String :=
  String.ofList t

end Text
end Lexeme
