import Lexeme.Proofs.Advance

/-! # Spans grown over a text

The locations of the characters walk over a text; the span of a word begins with its first character and is grown
by each of the others. The two never part: a span grown over a text stops where a walk from its stop ends
(`Span.grow_eq`), so that a stream that goes on through a word finds the next character where the word stops
(`TokenStream.advance_of_word`). -/

namespace Lexeme

/-! ### Columns -/

/-- A text with a line feed is cut at the last of them. -/
theorem Text.exists_last_row {t : Text} (h : '\n' ∈ t) : ∃ before row, t = before ++ '\n' :: row ∧ '\n' ∉ row := by
  obtain ⟨row, before, ht, hrow⟩ := List.eq_append_cons_of_mem (List.mem_reverse.mpr h)
  refine ⟨before.reverse, row.reverse, ?_, fun hmem => hrow (List.mem_reverse.mp hmem)⟩
  rw [← List.reverse_reverse t, ht]
  simp

namespace Location

theorem column_walk_of_not_mem {t : Text} (h : '\n' ∉ t) (l : Location) :
    (l.walk t).column = l.column + t.length := by
  rw [walk_eq]
  exact if_neg h

/-- Whatever the column was, a line feed starts a row of its own. -/
theorem column_walk_of_last_row {row : Text} (h : '\n' ∉ row) (l : Location) (before : Text) :
    (l.walk (before ++ '\n' :: row)).column = row.length := by
  have hstart : ((l.walk before).after ['\n']).column = 0 := rfl
  rw [walk_append, walk_cons, column_walk_of_not_mem h, hstart, Int.zero_add]

end Location

/-! ### Growing -/

namespace Span

/-- A span grown by the characters of a text, one by one. -/
def grow (s : Span) (t : Text) : Span :=
  t.foldl (fun s c => s.extend [c]) s

@[simp] theorem grow_nil (s : Span) : s.grow [] = s := rfl

@[simp] theorem grow_cons (s : Span) (c : Char) (t : Text) : s.grow (c :: t) = (s.extend [c]).grow t := rfl

theorem grow_eq (s : Span) (t : Text) : s.grow t = s.spanTo (s.stop.walk t) := by
  induction t generalizing s with
  | nil => rfl
  | cons c t ih =>
    rw [grow_cons, ih]
    rfl

end Span

/-- A pull goes on through the characters of a word that is held. Its span grows by them, while their locations walk
    over them. -/
theorem TokenStream.advance_of_word {s : TokenStream} {builder : Text.Builder} {span : SourceSpan} {t : Text} {f : Feed}
    (hheld : s.held = some (.word builder span)) (hserves : s.chars.feed.Serves t f)
    (ht : ∀ c ∈ t, Token.ofChar? c = none) :
    ∃ grown : Text.Builder, grown.build = builder.build ++ t ∧
      s.advance = advance { s with
        chars := ⟨SourceLocation.walk s.chars.place t, f⟩, held := some (.word grown (span.map (·.grow t))) } := by
  induction t generalizing s builder span with
  | nil =>
    cases hserves
    refine ⟨builder, (List.append_nil _).symm, ?_⟩
    show s.advance = advance { s with held := some (.word builder span) }
    rw [← hheld]
  | cons c t ih =>
    obtain ⟨hc, ht⟩ := List.forall_mem_cons.mp ht
    cases hserves with
    | cons hp hserves =>
      have hchars := CharStream.next_of_item hp
      have hpull : s.chars.next.pull = .item (c, s.chars.place) := by rw [hchars]
      have hmeet : Held.meet s.held c s.chars.place = (some (Held.growWord builder span c), none) := by
        rw [hheld, Held.meet_word_word hc]
      rw [advance_of_hold hpull hmeet, hchars]
      obtain ⟨grown, hbuild, hadvance⟩ := ih (s := { s with
        chars := ⟨SourceLocation.after s.chars.place [c], s.chars.feed.next.next⟩,
        held := some (Held.growWord builder span c) }) rfl hserves ht
      refine ⟨grown, ?_, hadvance⟩
      rw [hbuild, Text.Builder.build_push, List.append_assoc, List.singleton_append]

/-- A walk adds a row for each line feed and one to the offset for each character; its column goes on where there is
    no line feed, and counts the characters after the last one where there is. The span of a first character, grown by
    the others, runs from where the walk begins to where it ends. So does a word that a stream goes on with, and the
    next character stands where the word stops. -/
theorem Location.walk_reaches (l : Location) :
    (∀ t : Text, (l.walk t).row = l.row + t.count '\n' ∧ (l.walk t).offset = l.offset + t.length ∧
        ('\n' ∉ t → (l.walk t).column = l.column + t.length) ∧
        ('\n' ∈ t → ∃ before row, t = before ++ '\n' :: row ∧ '\n' ∉ row ∧ (l.walk t).column = row.length)) ∧
      ∀ (c : Char) (t : Text),
        (l.spanTo (l.after [c])).grow t = ⟨l, l.walk (c :: t)⟩ ∧
        l.spanTo (l.walk (c :: t)) = (l.spanTo (l.after [c])).grow t ∧
        ((l.spanTo (l.after [c])).grow t).length = (c :: t).length ∧
        ∀ (o : Origin) (s : TokenStream) (f : Feed), s.held = some (.beginWord c ⟨o, l⟩) →
          s.chars.place = ⟨o, l.after [c]⟩ → s.chars.feed.Serves t f → (∀ d ∈ t, Token.ofChar? d = none) →
          ∃ grown : Text.Builder, grown.build = c :: t ∧
            s.advance = TokenStream.advance { s with
              chars := ⟨⟨o, l.walk (c :: t)⟩, f⟩,
              held := some (.word grown ⟨o, (l.spanTo (l.after [c])).grow t⟩) } := by
  refine ⟨fun t => ⟨?_, offset_walk l t, fun h => column_walk_of_not_mem h l, fun h => ?_⟩, fun c t => ?_⟩
  · rw [walk_eq]
  · obtain ⟨before, row, rfl, hrow⟩ := Text.exists_last_row h
    exact ⟨before, row, rfl, hrow, column_walk_of_last_row hrow l before⟩
  · have hgrow : (l.spanTo (l.after [c])).grow t = l.spanTo (l.walk (c :: t)) := Span.grow_eq _ t
    refine ⟨hgrow, hgrow.symm, ?_, fun o s f hheld hplace hserves ht => ?_⟩
    · rw [hgrow, Span.length_spanTo_walk]
    · obtain ⟨grown, hbuild, hadvance⟩ := TokenStream.advance_of_word hheld hserves ht
      rw [hplace] at hadvance
      exact ⟨grown, by rw [hbuild, Text.Builder.build_ofText, List.singleton_append], hadvance⟩

/-- Over two line feeds from a location before the beginning, and along a word up to the mark behind it. -/
theorem Location.walk_reaches_of_two_rows :
    let o : Origin := ⟨"page", some "ab éx1-".toList⟩
    let s : TokenStream :=
      { chars := ⟨⟨o, ⟨0, 4, 4⟩⟩, .memory ['x', '1', '-']⟩, held := some (.beginWord 'é' ⟨o, ⟨0, 3, 3⟩⟩),
        flushOnError := true }
    ((⟨-2, 5, -7⟩ : Location).walk ['a', '\n', 'b', '\n', 'c', 'd']).offset = -1 ∧
      (∃ before row, ['a', '\n', 'b', '\n', 'c', 'd'] = before ++ '\n' :: row ∧ '\n' ∉ row ∧
        ((⟨-2, 5, -7⟩ : Location).walk ['a', '\n', 'b', '\n', 'c', 'd']).column = row.length) ∧
      ((⟨-2, 5, -7⟩ : Location).walk ['c', 'd']).column = 7 ∧
      ∃ grown : Text.Builder, grown.build = ['é', 'x', '1'] ∧
        s.advance = TokenStream.advance { s with
          chars := ⟨⟨o, ⟨0, 6, 6⟩⟩, .memory ['-']⟩, held := some (.word grown ⟨o, ⟨⟨0, 3, 3⟩, ⟨0, 6, 6⟩⟩⟩) } := by
  intro o s
  obtain ⟨hwalk, -⟩ := walk_reaches ⟨-2, 5, -7⟩
  obtain ⟨-, hoffset, -, hrow⟩ := hwalk ['a', '\n', 'b', '\n', 'c', 'd']
  obtain ⟨-, -, hcolumn, -⟩ := hwalk ['c', 'd']
  obtain ⟨-, hgrow⟩ := walk_reaches ⟨0, 3, 3⟩
  obtain ⟨-, -, -, hword⟩ := hgrow 'é' ['x', '1']
  have hchars : ∀ d ∈ ['x', '1'], Token.ofChar? d = none :=
    List.forall_mem_cons.mpr ⟨by decide, List.forall_mem_singleton.mpr (by decide)⟩
  exact ⟨hoffset, hrow (by decide), hcolumn (by decide),
    hword o s (.memory ['-']) rfl rfl (.cons rfl (.cons rfl (.nil _))) hchars⟩

end Lexeme
