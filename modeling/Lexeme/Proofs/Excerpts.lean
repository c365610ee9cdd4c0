import Lexeme.Proofs.Growth

/-! # Excerpts along a walk

The excerpt of a span is a part of the text that the offsets of the span cut out. Spans that meet have excerpts that
meet, and a span that is grown over the text behind it takes in just that text (`Origin.excerpt_grow`). -/

namespace Lexeme

namespace Text

variable {t p q : Text}

/-- Slices that meet make up the slice from the beginning of the first to the end of the second. -/
theorem slice?_append {i j k : Int} (hp : t.slice? i j = some p) (hq : t.slice? j k = some q) :
    t.slice? i k = some (p ++ q) := by
  obtain ⟨before, rest, ht, rfl, rfl⟩ := slice?_eq_some_iff.mp hp
  obtain ⟨upto, after, ht', hupto, rfl⟩ := slice?_eq_some_iff.mp hq
  have hlength : (before ++ p).length = upto.length := by
    rw [List.length_append]
    omega
  -- The two slices cut the text at one place, so what comes before it is the same.
  have hsame : (before ++ p) ++ rest = upto ++ (q ++ after) := by rw [← ht, ht', List.append_assoc]
  obtain ⟨rfl, rfl⟩ := List.append_inj hsame hlength
  refine slice?_eq_some_iff.mpr ⟨before, after, ?_, rfl, ?_⟩
  · simp only [ht, List.append_assoc]
  · simp only [List.length_append, Int.natCast_add, Int.add_assoc]

theorem slice?_cell {k : Nat} {c : Char} (h : t[k]? = some c) : t.slice? k (k + 1) = some [c] := by
  obtain ⟨hk, rfl⟩ := List.getElem?_eq_some_iff.mp h
  refine slice?_eq_some_iff.mpr ⟨t.take k, t.drop (k + 1), ?_, ?_, ?_⟩
  · rw [List.append_assoc, List.singleton_append, ← List.drop_eq_getElem_cons hk, List.take_append_drop]
  · rw [List.length_take_of_le hk.le]
  · rw [List.length_take_of_le hk.le]
    rfl

end Text

namespace Origin

variable {o : Origin} {text part : Text} {s : Span}

theorem excerpt_append (ho : o.kept = some text) {a b c : Location} {p q : Text}
    (hp : o.excerpt (a.spanTo b) = .ok p) (hq : o.excerpt (b.spanTo c) = .ok q) :
    o.excerpt (a.spanTo c) = .ok (p ++ q) := by
  rw [excerpt_eq_ok_iff ho] at hp hq ⊢
  exact Text.slice?_append hp hq

/-- The cell after a span is the character that stands there in the text. -/
theorem excerpt_after (ho : o.kept = some text) {k : Nat} (hk : s.stop.offset = k) {c : Char}
    (hc : text[k]? = some c) : o.excerpt (s.after [c]) = .ok [c] := by
  rw [excerpt_eq_ok_iff ho, Span.after, Location.offset_after, hk]
  exact Text.slice?_cell hc

theorem excerpt_extend (ho : o.kept = some text) (hs : o.excerpt s = .ok part) {k : Nat} (hk : s.stop.offset = k)
    {c : Char} (hc : text[k]? = some c) : o.excerpt (s.extend [c]) = .ok (part ++ [c]) :=
  excerpt_append ho hs (excerpt_after ho hk hc)

/-- A span grown over the text behind it covers that text too. -/
theorem excerpt_grow (ho : o.kept = some text) (hs : o.excerpt s = .ok part) {k : Nat} (hk : s.stop.offset = k)
    {t rest : Text} (ht : text.drop k = t ++ rest) : o.excerpt (s.grow t) = .ok (part ++ t) := by
  induction t generalizing s part k with
  | nil => rwa [Span.grow_nil, List.append_nil]
  | cons c t ih =>
    have hc : text[k]? = some c := by
      rw [← List.head?_drop, ht]
      rfl
    have hrest : text.drop (k + 1) = t ++ rest := by
      rw [← List.tail_drop, ht]
      rfl
    have hstop : (s.extend [c]).stop.offset = (k + 1 : Nat) := by
      rw [Span.extend, Location.offset_after, hk]
      rfl
    have hgrown := ih (excerpt_extend ho hs hk hc) hstop hrest
    rwa [List.append_assoc, List.singleton_append] at hgrown

end Origin

/-- A source over a text refuses a span, with its name and the span, unless the offsets lie in order within the text.
    Otherwise the excerpt is the part of the text from the one offset to the other, whatever the rows and columns are.
    The excerpts of spans that meet make up the excerpt of the span over both; and a span grown by the character or by
    the text that comes next in the source takes in just that. -/
theorem Source.excerpts_follow (name : String) (text : Text) :
    let o := (Source.ofText name text).origin
    (∀ s : Span, o.excerpt s = .error (.noExcerpt name s .outside) ↔
        ¬(0 ≤ s.start.offset ∧ s.start.offset ≤ s.stop.offset ∧ s.stop.offset ≤ text.length)) ∧
      (∀ s : Span, 0 ≤ s.start.offset ∧ s.start.offset ≤ s.stop.offset ∧ s.stop.offset ≤ text.length →
        ∃ before part after, text = before ++ part ++ after ∧ before.length = s.start.offset ∧
          part.length = s.length ∧
          ∀ s' : Span, s'.start.offset = s.start.offset → s'.stop.offset = s.stop.offset →
            o.excerpt s' = .ok part) ∧
      (∀ (a b c : Location) (p q : Text), o.excerpt (a.spanTo b) = .ok p → o.excerpt (b.spanTo c) = .ok q →
        o.excerpt (a.spanTo c) = .ok (p ++ q)) ∧
      ∀ (s : Span) (part : Text) (k : Nat), o.excerpt s = .ok part → s.stop.offset = k →
        (∀ c, text[k]? = some c →
          o.excerpt (s.extend [c]) = .ok (part ++ [c]) ∧ o.excerpt (s.after [c]) = .ok [c]) ∧
        ∀ t rest, text.drop k = t ++ rest → o.excerpt (s.grow t) = .ok (part ++ t) := by
  intro o
  have ho : o.kept = some text := rfl
  refine ⟨fun s => ?_, fun s hs => ?_, fun a b c p q => Origin.excerpt_append ho,
    fun s part k hpart hk => ⟨fun c hc => ?_, fun t rest => Origin.excerpt_grow ho hpart hk⟩⟩
  · exact (Origin.excerpt_eq_error_iff ho).trans Text.slice?_eq_none_iff
  · cases hslice : text.slice? s.start.offset s.stop.offset with
    | none => exact absurd hs (Text.slice?_eq_none_iff.mp hslice)
    | some part =>
      obtain ⟨before, after, ht, hstart, hstop⟩ := Text.slice?_eq_some_iff.mp hslice
      refine ⟨before, part, after, ht, hstart.symm, ?_, fun s' hstart' hstop' => ?_⟩
      · rw [Span.length, hstart, hstop]
        omega
      · rw [Origin.excerpt_eq_ok_iff ho, hstart', hstop', hslice]
  · exact ⟨Origin.excerpt_extend ho hpart hk hc, Origin.excerpt_after ho hk hc⟩

/-- Over the line end of a text, with rows and columns that lie; spans that are turned round, or begin before the text,
    are refused. -/
theorem Source.excerpts_follow_over_line_end :
    let text : Text := ['a', 'b', '\n', 'c', 'd']
    let o := (Source.ofText "page" text).origin
    let turned : Span := ⟨⟨0, 2, 2⟩, ⟨0, 1, 1⟩⟩
    let early : Span := ⟨⟨0, 0, -1⟩, ⟨0, 2, 2⟩⟩
    let s : Span := ⟨⟨7, -3, 1⟩, ⟨-4, 9, 2⟩⟩
    o.excerpt turned = .error (.noExcerpt "page" turned .outside) ∧
      o.excerpt early = .error (.noExcerpt "page" early .outside) ∧
      (∃ before part after, text = before ++ part ++ after ∧ before.length = s.start.offset ∧ part.length = s.length ∧
        o.excerpt s = .ok part) ∧
      o.excerpt (s.start.spanTo ⟨1, 1, 4⟩) = .ok ['b', '\n', 'c'] ∧
      o.excerpt (s.extend ['\n']) = .ok ['b', '\n'] ∧ o.excerpt (s.after ['\n']) = .ok ['\n'] ∧
      o.excerpt (s.grow ['\n', 'c']) = .ok ['b', '\n', 'c'] := by
  intro text o turned early s
  obtain ⟨hrefused, hwithin, hmeet, hnext⟩ := excerpts_follow "page" text
  obtain ⟨before, part, after, ht, hbefore, hlength, hoffsets⟩ := hwithin s (by decide)
  obtain ⟨hcell, hgrow⟩ := hnext s ['b'] 2 rfl rfl
  obtain ⟨hextend, hafter⟩ := hcell '\n' rfl
  exact ⟨(hrefused turned).mpr (by decide), (hrefused early).mpr (by decide),
    ⟨before, part, after, ht, hbefore, hlength, hoffsets s rfl rfl⟩,
    hmeet s.start s.stop ⟨1, 1, 4⟩ ['b'] ['\n', 'c'] rfl rfl, hextend, hafter, hgrow ['\n', 'c'] ['d'] rfl⟩

end Lexeme
