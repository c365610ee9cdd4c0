import Lexeme.Proofs.Cut
import Lexeme.Proofs.Walk
import Lexeme.Stream.Held

/-! # Tokens laid out over a text

Tokens that make up a text lie in it one after another: the first begins where the text does, every other
where the one before it stops. `tokenizes_iff` says that this, with what the tokens and the locations are by
themselves, leaves no choice: the items are the cut of the text, laid out from its beginning. -/

namespace Lexeme

/-- The location after the characters of a text, one by one, in the same source. -/
def SourceLocation.walk (l : SourceLocation) (t : Text) : SourceLocation :=
  l.map (·.walk t)

namespace SourceLocation

theorem walk_append (l : SourceLocation) (s t : Text) : walk l (s ++ t) = walk (walk l s) t := by
  simp [walk, InSource.map, Location.walk_append]

end SourceLocation

namespace Item

/-- Tokens laid out one after another from a location on. -/
def layOut (l : SourceLocation) : List Token → List Item
  | [] => []
  | t :: ts => ⟨t, SourceLocation.spanTo l (l.inner.walk t.value)⟩ :: layOut (SourceLocation.walk l t.value) ts

/-- The text that items stand for together. -/
def text (items : List Item) : Text :=
  items.flatMap (·.token.value)

/-- Spans that lead from one location to another: each starts where the one before it stops. -/
def Leads (l : Location) : List Item → Location → Prop
  | [], m => l = m
  | i :: items, m => i.span.inner.start = l ∧ Leads i.span.inner.stop items m

/-- A location that some beginning of a text leads to. -/
def IsPlace (text : Text) (l : Location) : Prop :=
  ∃ before, before <+: text ∧ l = .afterText before

/-- Items that are the tokens of a text: they make it up, as marks and words of which no two stand side by
    side, and their spans lead over places of the text and cover it. -/
structure Tokenizes (origin : Origin) (text : Text) (items : List Item) : Prop where
  values : Item.text items = text
  each : ∀ i ∈ items, i.token.IsMark ∨ i.token.IsWord
  apart : items.IsChain fun i j => ¬(i.token.kind = .word ∧ j.token.kind = .word)
  leads : ∃ stop, Leads .zero items stop
  places : ∀ i ∈ items, IsPlace text i.span.inner.start ∧ IsPlace text i.span.inner.stop
  source : ∀ i ∈ items, i.span.source = origin
  excerpts : ∀ i ∈ items, SourceSpan.excerpt i.span = .ok i.token.value

/-! ### Laying out -/

theorem map_token_layOut (l : SourceLocation) (ts : List Token) : (layOut l ts).map (·.token) = ts := by
  induction ts generalizing l with
  | nil => rfl
  | cons t ts ih => rw [layOut, List.map_cons, ih]

theorem length_layOut (l : SourceLocation) (ts : List Token) : (layOut l ts).length = ts.length := by
  rw [← List.length_map (·.token), map_token_layOut]

theorem text_eq (items : List Item) : text items = (items.map (·.token)).flatMap (·.value) := by
  rw [text, List.flatMap_map]

theorem text_layOut (l : SourceLocation) (ts : List Token) : text (layOut l ts) = ts.flatMap (·.value) := by
  rw [text_eq, map_token_layOut]

theorem leads_layOut (l : SourceLocation) (ts : List Token) :
    Leads l.inner (layOut l ts) (l.inner.walk (ts.flatMap (·.value))) := by
  induction ts generalizing l with
  | nil => rfl
  | cons t ts ih =>
    rw [List.flatMap_cons, Location.walk_append]
    exact ⟨rfl, ih (SourceLocation.walk l t.value)⟩

/-- An item that is laid out covers its token, after all tokens before it. -/
theorem mem_layOut {l : SourceLocation} {ts : List Token} {i : Item} (h : i ∈ layOut l ts) :
    ∃ before after, ts.flatMap (·.value) = before ++ i.token.value ++ after ∧
      i.span = ⟨l.source, l.inner.walk before, l.inner.walk (before ++ i.token.value)⟩ := by
  induction ts generalizing l with
  | nil => cases h
  | cons t ts ih =>
    rcases List.mem_cons.mp h with rfl | h
    · exact ⟨[], ts.flatMap (·.value), rfl, rfl⟩
    · obtain ⟨before, after, hts, hspan⟩ := ih h
      refine ⟨t.value ++ before, after, ?_, ?_⟩
      · simp only [List.flatMap_cons, hts, List.append_assoc]
      · rw [hspan, List.append_assoc]
        simp only [SourceLocation.walk, InSource.map, ← Location.walk_append]

/-! ### Items that are the tokens of a text -/

theorem tokenizes_layOut (name : String) (t : Text) :
    Tokenizes ⟨name, some t⟩ t (layOut (Origin.start ⟨name, some t⟩) (Token.cut t)) := by
  obtain ⟨hvalues, heach, hapart⟩ := Token.splits_cut t
  have htokens := map_token_layOut (Origin.start ⟨name, some t⟩) (Token.cut t)
  have hmem : ∀ i ∈ layOut (Origin.start ⟨name, some t⟩) (Token.cut t),
      ∃ before after, t = before ++ i.token.value ++ after ∧
        i.span = ⟨⟨name, some t⟩, .afterText before, .afterText (before ++ i.token.value)⟩ := by
    intro i hi
    obtain ⟨before, after, ht, hspan⟩ := mem_layOut hi
    rw [hvalues] at ht
    rw [Origin.start, Location.walk_zero, Location.walk_zero] at hspan
    exact ⟨before, after, ht, hspan⟩
  refine ⟨?_, ?_, ?_, ⟨_, leads_layOut (Origin.start ⟨name, some t⟩) (Token.cut t)⟩, ?_, ?_, ?_⟩
  · rw [text_layOut, hvalues]
  · intro i hi
    exact heach i.token (htokens ▸ List.mem_map_of_mem hi)
  · rw [← htokens] at hapart
    exact (List.isChain_map Item.token).mp hapart
  · intro i hi
    obtain ⟨before, after, ht, hspan⟩ := hmem i hi
    rw [hspan]
    exact ⟨⟨before, ⟨i.token.value ++ after, by rw [ht, List.append_assoc]⟩, rfl⟩,
      ⟨before ++ i.token.value, ⟨after, ht.symm⟩, rfl⟩⟩
  · intro i hi
    obtain ⟨before, after, -, hspan⟩ := hmem i hi
    rw [hspan]
  · intro i hi
    obtain ⟨before, after, ht, hspan⟩ := hmem i hi
    rw [hspan, SourceSpan.excerpt, Origin.excerpt_eq_ok_iff rfl, Text.slice?_eq_some_iff]
    refine ⟨before, after, ht, rfl, ?_⟩
    simp only [Location.afterText, List.length_append, Int.natCast_add]

/-- A span that starts after a beginning of a text, stops at a place of it and gives what follows the
    beginning, stops after that. -/
theorem stop_eq_of_excerpt {name : String} {t before value after : Text} {span : SourceSpan}
    (ht : t = before ++ value ++ after) (hsource : span.source = ⟨name, some t⟩)
    (hstart : span.inner.start = .afterText before) (hstop : IsPlace t span.inner.stop)
    (hexcerpt : SourceSpan.excerpt span = .ok value) : span.inner.stop = .afterText (before ++ value) := by
  obtain ⟨reached, hreached, hplace⟩ := hstop
  rw [SourceSpan.excerpt, hsource, Origin.excerpt_eq_ok_iff rfl, hstart, hplace, Text.slice?_eq_some_iff] at hexcerpt
  obtain ⟨first, last, -, hfirst, hlast⟩ := hexcerpt
  have hlength : reached.length = (before ++ value).length := by
    simp only [Location.afterText] at hfirst hlast
    rw [List.length_append]
    omega
  have hprefix : before ++ value <+: t := ⟨after, ht.symm⟩
  have hreached : reached = before ++ value :=
    (List.prefix_of_prefix_length_le hreached hprefix (Nat.le_of_eq hlength)).eq_of_length hlength
  rw [hplace, hreached]

theorem eq_layOut_of_leads {name : String} {t before : Text} {items : List Item} {stop : Location}
    (ht : t = before ++ text items) (hleads : Leads (.afterText before) items stop)
    (hplaces : ∀ i ∈ items, IsPlace t i.span.inner.stop) (hsource : ∀ i ∈ items, i.span.source = ⟨name, some t⟩)
    (hexcerpts : ∀ i ∈ items, SourceSpan.excerpt i.span = .ok i.token.value) :
    items = layOut ⟨⟨name, some t⟩, .afterText before⟩ (items.map (·.token)) := by
  -- The text before the items is fixed by the location that they start from.
  induction items generalizing before with
  | nil => rfl
  | cons i items ih =>
    obtain ⟨hstart, hleads⟩ := hleads
    obtain ⟨hplace, hplaces⟩ := List.forall_mem_cons.mp hplaces
    obtain ⟨hsrc, hsource⟩ := List.forall_mem_cons.mp hsource
    obtain ⟨hexcerpt, hexcerpts⟩ := List.forall_mem_cons.mp hexcerpts
    have ht' : t = before ++ i.token.value ++ text items := by
      rw [ht, text, List.flatMap_cons, List.append_assoc, text]
    have hstop := stop_eq_of_excerpt ht' hsrc hstart hplace hexcerpt
    have hwalk : (Location.afterText before).walk i.token.value = .afterText (before ++ i.token.value) := by
      rw [← Location.walk_zero, ← Location.walk_append, Location.walk_zero]
    rw [hstop] at hleads
    have htail := ih ht' hleads hplaces hsource hexcerpts
    have hspan : i.span = ⟨⟨name, some t⟩, .afterText before, .afterText (before ++ i.token.value)⟩ := by
      rw [← hsrc, ← hstart, ← hstop]
    rw [List.map_cons, layOut]
    simp only [SourceLocation.walk, SourceLocation.spanTo, InSource.map, Location.spanTo, hwalk]
    rw [← htail, ← hspan]

theorem eq_layOut_of_tokenizes {name : String} {t : Text} {items : List Item}
    (h : Tokenizes ⟨name, some t⟩ t items) : items = layOut (Origin.start ⟨name, some t⟩) (Token.cut t) := by
  obtain ⟨hvalues, heach, hapart, ⟨stop, hleads⟩, hplaces, hsource, hexcerpts⟩ := h
  have hsplits : Token.Splits t (items.map (·.token)) := by
    refine ⟨?_, ?_, ?_⟩
    · rw [← text_eq, hvalues]
    · intro token htoken
      obtain ⟨i, hi, rfl⟩ := List.mem_map.mp htoken
      exact heach i hi
    · exact (List.isChain_map Item.token).mpr hapart
  have hitems : items = layOut ⟨⟨name, some t⟩, .afterText []⟩ (items.map (·.token)) :=
    eq_layOut_of_leads hvalues.symm hleads (fun i hi => (hplaces i hi).2) hsource hexcerpts
  rw [Token.eq_cut_of_splits hsplits] at hitems
  exact hitems

theorem tokenizes_iff {name : String} {t : Text} {items : List Item} :
    Tokenizes ⟨name, some t⟩ t items ↔ items = layOut (Origin.start ⟨name, some t⟩) (Token.cut t) :=
  ⟨eq_layOut_of_tokenizes, fun h => h ▸ tokenizes_layOut name t⟩

end Item
end Lexeme
