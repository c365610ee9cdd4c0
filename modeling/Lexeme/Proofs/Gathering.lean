import Lexeme.Proofs.Layout

/-! # Gathering a text into items

What is given out because of the characters of a text, followed by what is held after them, is the cut of
the text laid out where it lies (`items_meetAll`). This is shown for whatever is held at first: a word that
is held goes on with the word that the text begins with. -/

namespace Lexeme.Held

/-- The item that is given out. -/
def item : Held → Item
  | token t span => ⟨t, span⟩
  | word builder span => ⟨⟨.word, builder.build⟩, span⟩

/-- What is held can be given out: no word is empty. -/
def IsWhole : Held → Prop
  | token _ _ => True
  | word builder _ => builder.build ≠ []

/-- What is held lies before a location, up to it. -/
structure Fits (h : Held) (l : SourceLocation) : Prop where
  whole : h.IsWhole
  source : h.span.source = l.source
  stop : h.span.inner.stop = l.inner

/-- What is given out because of the characters of a text, and what is held after them. -/
def meetAll (held : Option Held) (l : SourceLocation) : Text → List Held × Option Held
  | [] => ([], held)
  | c :: rest =>
    let met := meet held c l
    let later := meetAll met.1 (SourceLocation.after l [c]) rest
    (met.2.toList ++ later.1, later.2)

/-- The items of what is held and of tokens after it: a word that is held goes on with the word that comes
    first. -/
def resume (held : Option Held) (l : SourceLocation) (tokens : List Token) : List Item :=
  match held, tokens with
  | some (word builder span), ⟨.word, value⟩ :: rest =>
    ⟨⟨.word, builder.build ++ value⟩, SourceSpan.spanTo span (l.inner.walk value)⟩ ::
      Item.layOut (SourceLocation.walk l value) rest
  | held, tokens => held.toList.map item ++ Item.layOut l tokens

theorem release_of_whole {h : Held} (hw : h.IsWhole) : h.release = .item h.item := by
  cases h with
  | token t span => rfl
  | word builder span =>
    have hne : builder.build.isEmpty = false := by simpa [IsWhole] using hw
    simp [release, item, Token.word?, hne]

theorem span_item (h : Held) : h.item.span = h.span := by
  cases h <;> rfl

/-! ### One character -/

section
variable {c : Char} {l : SourceLocation} {t : Token}

theorem meet_mark_none (hc : Token.ofChar? c = some t) :
    meet none c l = (none, some (token t (SourceLocation.cellSpan l [c]))) := by
  simp [meet, hc]

theorem meet_mark_some (hc : Token.ofChar? c = some t) (h : Held) :
    meet (some h) c l = (some (token t (SourceLocation.cellSpan l [c])), some h) := by
  simp [meet, hc]

theorem meet_word_none (hc : Token.ofChar? c = none) : meet none c l = (some (beginWord c l), none) := by
  simp [meet, hc]

theorem meet_word_token (hc : Token.ofChar? c = none) (u : Token) (span : SourceSpan) :
    meet (some (token u span)) c l = (some (beginWord c l), some (token u span)) := by
  simp [meet, hc]

theorem meet_word_word (hc : Token.ofChar? c = none) (builder : Text.Builder) (span : SourceSpan) :
    meet (some (word builder span)) c l = (some (growWord builder span c), none) := by
  simp [meet, hc]

theorem fits_cell (u : Token) : (token u (SourceLocation.cellSpan l [c])).Fits (SourceLocation.after l [c]) :=
  ⟨trivial, rfl, rfl⟩

theorem fits_beginWord : (beginWord c l).Fits (SourceLocation.after l [c]) := by
  refine ⟨?_, rfl, rfl⟩
  show (Text.Builder.ofText [c]).build ≠ []
  rw [Text.Builder.build_ofText]
  exact List.cons_ne_nil c []

theorem fits_growWord {builder : Text.Builder} {span : SourceSpan} (h : (word builder span).Fits l) :
    (growWord builder span c).Fits (SourceLocation.after l [c]) := by
  refine ⟨?_, h.source, ?_⟩
  · show (builder.push c).build ≠ []
    rw [Text.Builder.build_push]
    exact List.append_ne_nil_of_right_ne_nil _ (List.cons_ne_nil c [])
  · show (span.inner.stop).after [c] = l.inner.after [c]
    rw [show span.inner.stop = l.inner from h.stop]

theorem fits_meet {held : Option Held} (h : ∀ x ∈ held, x.Fits l) :
    (∀ x ∈ (meet held c l).1, x.Fits (SourceLocation.after l [c])) ∧ ∀ x ∈ (meet held c l).2, x.IsWhole := by
  cases hc : Token.ofChar? c with
  | some t =>
    cases held with
    | none =>
      rw [meet_mark_none hc]
      exact ⟨by simp, by rintro x ⟨⟩; exact trivial⟩
    | some x =>
      rw [meet_mark_some hc]
      exact ⟨by rintro y ⟨⟩; exact fits_cell t, by rintro y ⟨⟩; exact (h x rfl).whole⟩
  | none =>
    rcases held with _ | ⟨u, span⟩ | ⟨builder, span⟩
    · rw [meet_word_none hc]
      exact ⟨by rintro x ⟨⟩; exact fits_beginWord, by simp⟩
    · rw [meet_word_token hc]
      exact ⟨by rintro x ⟨⟩; exact fits_beginWord, by rintro x ⟨⟩; exact trivial⟩
    · rw [meet_word_word hc]
      exact ⟨by rintro x ⟨⟩; exact fits_growWord (h _ rfl), by simp⟩

end

/-! ### A whole text -/

theorem meetAll_cons (held : Option Held) (l : SourceLocation) (c : Char) (rest : Text) :
    meetAll held l (c :: rest) =
      ((meet held c l).2.toList ++ (meetAll (meet held c l).1 (SourceLocation.after l [c]) rest).1,
        (meetAll (meet held c l).1 (SourceLocation.after l [c]) rest).2) := rfl

theorem meetAll_append (held : Option Held) (l : SourceLocation) (s t : Text) :
    meetAll held l (s ++ t) =
      ((meetAll held l s).1 ++ (meetAll (meetAll held l s).2 (SourceLocation.walk l s) t).1,
        (meetAll (meetAll held l s).2 (SourceLocation.walk l s) t).2) := by
  induction s generalizing held l with
  | nil => rfl
  | cons c s ih =>
    rw [List.cons_append, meetAll_cons, ih, meetAll_cons, List.append_assoc]
    rfl

theorem fits_meetAll {held : Option Held} {l : SourceLocation} (h : ∀ x ∈ held, x.Fits l) (text : Text) :
    (∀ x ∈ (meetAll held l text).2, x.Fits (SourceLocation.walk l text)) ∧
      ∀ x ∈ (meetAll held l text).1, x.IsWhole := by
  induction text generalizing held l with
  | nil => exact ⟨h, by simp [meetAll]⟩
  | cons c rest ih =>
    obtain ⟨hheld, hout⟩ := fits_meet (c := c) h
    obtain ⟨hlast, houts⟩ := ih hheld
    refine ⟨hlast, fun x hx => ?_⟩
    rcases List.mem_append.mp hx with hx | hx
    · exact hout x (Option.mem_toList.mp hx)
    · exact houts x hx

/-- Something is held as soon as a word has begun, and ever after. -/
theorem isSome_meetAll (held : Option Held) (l : SourceLocation) (text : Text) :
    (meetAll held l text).2.isSome = (held.isSome || text.any Token.isWordChar) := by
  induction text generalizing held l with
  | nil => simp [meetAll]
  | cons c rest ih =>
    rw [meetAll_cons, ih, List.any_cons, ← Bool.or_assoc]
    congr 1
    cases hc : Token.ofChar? c with
    | some t => cases held <;> simp [meet, hc, Token.isWordChar]
    | none => rcases held with _ | ⟨⟨u, span⟩ | ⟨builder, span⟩⟩ <;> simp [meet, hc, Token.isWordChar]

/-! ### The items of a text -/

theorem resume_word_word (builder : Text.Builder) (span : SourceSpan) (l : SourceLocation) (value : Text)
    (ts : List Token) :
    resume (some (word builder span)) l (⟨.word, value⟩ :: ts) =
      ⟨⟨.word, builder.build ++ value⟩, SourceSpan.spanTo span (l.inner.walk value)⟩ ::
        Item.layOut (SourceLocation.walk l value) ts := rfl

theorem resume_of_apart (held : Option Held) (l : SourceLocation) {ts : List Token}
    (h : ∀ t ∈ ts.head?, t.kind ≠ .word) : resume held l ts = held.toList.map item ++ Item.layOut l ts := by
  unfold resume
  split
  · exact absurd rfl (h _ rfl)
  · rfl

theorem item_growWord (builder : Text.Builder) (span : SourceSpan) (c : Char) :
    (growWord builder span c).item = ⟨⟨.word, builder.build ++ [c]⟩, SourceSpan.extend span [c]⟩ := by
  rw [growWord, item, Text.Builder.build_push]

/-- A character does to what is held what it does to the tokens after it. -/
theorem resume_meet {held : Option Held} {l : SourceLocation} (h : ∀ x ∈ held, x.Fits l) (c : Char)
    (ts : List Token) :
    (meet held c l).2.toList.map item ++ resume (meet held c l).1 (SourceLocation.after l [c]) ts =
      resume held l (Token.putBefore c ts) := by
  cases hc : Token.ofChar? c with
  | some t =>
    have hcell : Item.layOut l (t :: ts) =
        ⟨t, SourceLocation.cellSpan l [c]⟩ :: Item.layOut (SourceLocation.after l [c]) ts := by
      rw [Item.layOut, Token.value_of_ofChar? hc]
      rfl
    have hapart : ∀ u ∈ (t :: ts).head?, u.kind ≠ .word := by
      rintro u ⟨⟩
      exact Token.kind_ne_word_of_ofChar? hc
    rw [Token.putBefore_of_some hc, resume_of_apart held l hapart, hcell]
    cases held with
    | none => rw [meet_mark_none hc]; rfl
    | some x => rw [meet_mark_some hc]; rfl
  | none =>
    -- The character goes into the word that comes first, unless another token does.
    rcases Token.head_word_or_apart ts with ⟨value, rest, rfl⟩ | hts
    · rw [Token.putBefore_word hc]
      rcases held with _ | ⟨u, span⟩ | ⟨builder, span⟩
      · rw [meet_word_none hc]
        rfl
      · rw [meet_word_token hc]
        rfl
      · rw [meet_word_word hc, growWord, resume_word_word, resume_word_word, Text.Builder.build_push,
          List.append_assoc]
        rfl
    · rw [Token.putBefore_of_apart hc hts]
      rcases held with _ | ⟨u, span⟩ | ⟨builder, span⟩
      · rw [meet_word_none hc, resume_of_apart _ _ hts]
        rfl
      · rw [meet_word_token hc, resume_of_apart _ _ hts]
        rfl
      · have hstop : span.inner.stop = l.inner := (h _ rfl).stop
        have hspan : SourceSpan.extend span [c] = SourceSpan.spanTo span (l.inner.walk [c]) := by
          rw [← hstop]
          rfl
        rw [meet_word_word hc, resume_of_apart _ _ hts, resume_word_word, ← hspan]
        show [(growWord builder span c).item] ++ _ = _
        rw [item_growWord]
        rfl

theorem items_meetAll {held : Option Held} {l : SourceLocation} (h : ∀ x ∈ held, x.Fits l) (text : Text) :
    ((meetAll held l text).1 ++ (meetAll held l text).2.toList).map item = resume held l (Token.cut text) := by
  induction text generalizing held l with
  | nil => rw [Token.cut, resume_of_apart held l (by simp)]; simp [meetAll, Item.layOut]
  | cons c rest ih =>
    obtain ⟨hheld, -⟩ := fits_meet (c := c) h
    rw [meetAll_cons, List.append_assoc, List.map_append, ih hheld, resume_meet h]
    rfl

theorem items_meetAll_none (l : SourceLocation) (text : Text) :
    ((meetAll none l text).1 ++ (meetAll none l text).2.toList).map item = Item.layOut l (Token.cut text) :=
  items_meetAll (by simp) text

end Lexeme.Held
