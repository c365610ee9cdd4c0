import Lexeme.Proofs.Run

/-! # The tokens of a text

A stream over a text in memory gives the cut of the text, laid out from its beginning, and nothing else
before the end. `tokenize_exact` says the same without the stream: the tokens of a text are the only items
that make it up, each in its place. -/

namespace Lexeme

namespace Item

/-- The tokens of a text as the items of a source. -/
def ofText (o : Origin) (t : Text) : List Item :=
  layOut o.start (Token.cut t)

theorem length_ofText_le (o : Origin) (t : Text) : (ofText o t).length ≤ t.length := by
  rw [ofText, length_layOut]
  exact Token.length_cut_le t

end Item

namespace TokenStream

/-- A stream that has just been opened. -/
structure Fresh (s : TokenStream) (o : Origin) : Prop where
  place : s.chars.place = o.start
  held : s.held = none
  owed : s.owed = none
  unended : s.exhausted = false

theorem Fresh.live {s : TokenStream} {o : Origin} (h : s.Fresh o) : s.Live :=
  ⟨h.owed, h.unended, by simp [h.held]⟩

theorem fresh_ofText (name : String) (t : Text) : (ofText name t).Fresh ⟨name, some t⟩ :=
  ⟨rfl, rfl, rfl, rfl⟩

theorem ofSource_eq_ok {source rest : Source} {config : Config} {s : TokenStream} {event : LogEvent}
    (h : ofSource source config = .ok (s, rest, event)) :
    s.Fresh source.origin ∧ source.unread = some s.chars.feed ∧ s.flushOnError = config.flushOnError := by
  unfold ofSource CharStream.ofSource Source.take? at h
  cases hunread : source.unread with
  | none => simp [hunread] at h
  | some feed =>
    simp only [hunread, Option.map_some, Except.ok.injEq, Prod.mk.injEq] at h
    obtain ⟨rfl, -, -⟩ := h
    exact ⟨⟨rfl, rfl, rfl, rfl⟩, rfl, rfl⟩

theorem given_append_held (o : Origin) (t : Text) :
    (Held.meetAll none o.start t).1.map Held.item ++ (Held.meetAll none o.start t).2.toList.map Held.item =
      Item.ofText o t := by
  rw [← List.map_append]
  exact Held.items_meetAll_none o.start t

/-- All items of a text are given out but the last, which is held if a word has begun and comes with the ending. -/
theorem Fresh.gives {s : TokenStream} {o : Origin} (hs : s.Fresh o) {t : Text} {stop : Stop}
    (hd : s.chars.feed.delivery = ⟨t, stop⟩) :
    (t.any Token.isWordChar = false ∧
        Gives next s ((Item.ofText o t).map .item ++ ending s.flushOnError none stop)) ∨
      ∃ items x, t.any Token.isWordChar = true ∧ Item.ofText o t = items ++ [x.item] ∧
        Gives next s (items.map .item ++ ending s.flushOnError (some x) stop) := by
  have hgives := gives_of_delivery hs.live hd
  have hitems := given_append_held o t
  have hword : t.any Token.isWordChar = (Held.meetAll none o.start t).2.isSome := by
    rw [Held.isSome_meetAll]
    rfl
  have hgiven : ((Held.meetAll none o.start t).1.map fun x => Pull.item x.item) =
      ((Held.meetAll none o.start t).1.map Held.item).map .item := List.map_map.symm
  rw [hs.held, hs.place, hgiven] at hgives
  cases hheld : (Held.meetAll none o.start t).2 with
  | none =>
    rw [hheld] at hitems hgives hword
    rw [Option.toList_none, List.map_nil, List.append_nil] at hitems
    exact Or.inl ⟨hword, hitems ▸ hgives⟩
  | some x =>
    rw [hheld] at hitems hgives hword
    exact Or.inr ⟨_, x, hword, hitems.symm, hgives⟩

theorem gives_ofText {s : TokenStream} {o : Origin} (hs : s.Fresh o) {t : Text}
    (hd : s.chars.feed.delivery = ⟨t, .finished⟩) : Gives next s ((Item.ofText o t).map .item) := by
  rcases hs.gives hd with ⟨-, hgives⟩ | ⟨items, x, -, hitems, hgives⟩
  · have hending : ending s.flushOnError none .finished = [] := rfl
    rwa [hending, List.append_nil] at hgives
  · rw [hitems, List.map_append]
    exact hgives

end TokenStream

theorem pulls_drain_ofText (name : String) (t : Text) :
    (TokenStream.ofText name t).drain.map (·.pull) =
      (Item.ofText ⟨name, some t⟩ t).map .item ++ [.stop .finished] := by
  have hgives := TokenStream.gives_ofText (TokenStream.fresh_ofText name t) (t := t) rfl
  refine hgives.drain ?_ ?_
  · intro p hp
    obtain ⟨i, -, rfl⟩ := List.mem_map.mp hp
    exact fun h => by cases h
  · have hle := Item.length_ofText_le ⟨name, some t⟩ t
    show _ < t.length + 4
    rw [List.length_map]
    omega

theorem tokenize_eq (name : String) (t : Text) : tokenize name t = Item.ofText ⟨name, some t⟩ t := by
  have hpulls : tokenize name t = ((TokenStream.ofText name t).drain.map (·.pull)).filterMap Pull.item? := by
    rw [List.filterMap_map]
    rfl
  rw [hpulls, pulls_drain_ofText, List.filterMap_append, List.filterMap_map]
  simp [Function.comp_def, Pull.item?]

namespace Item

/-- The same token at the same place of another source. -/
def inSource (o : Origin) (i : Item) : Item :=
  ⟨i.token, ⟨o, i.span.inner⟩⟩

theorem map_inSource_layOut (o : Origin) (l : SourceLocation) (ts : List Token) :
    (layOut l ts).map (inSource o) = layOut ⟨o, l.inner⟩ ts := by
  induction ts generalizing l with
  | nil => rfl
  | cons t ts ih =>
    rw [layOut, List.map_cons, ih]
    rfl

/-- The tokens of a text are the same in every source. -/
theorem map_inSource_tokenize (o : Origin) (name : String) (t : Text) :
    (tokenize name t).map (inSource o) = ofText o t := by
  rw [tokenize_eq]
  exact map_inSource_layOut o _ (Token.cut t)

end Item

/-- Pull after pull a text in memory gives its tokens and then the end, and its tokens are the only items that
    tokenize it. -/
theorem tokenize_exact (name : String) (t : Text) :
    (TokenStream.ofText name t).drain.map (·.pull) = (tokenize name t).map .item ++ [.stop .finished] ∧
      ∀ items, Item.Tokenizes ⟨name, some t⟩ t items ↔ items = tokenize name t := by
  rw [tokenize_eq]
  exact ⟨pulls_drain_ofText name t, fun items => Item.tokenizes_iff⟩

end Lexeme
