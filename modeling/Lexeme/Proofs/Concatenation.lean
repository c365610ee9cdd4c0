import Lexeme.Proofs.Partition

/-! # Two texts one after another

The tokens of two texts put together are those of the first and those of the second, these relocated behind the
first text. Only where a word ends the first text and a word begins the second do the two become one
(`tokenize_append`). Both follow from the cut being the one way: tokens that split the parts split the whole. -/

namespace Lexeme

namespace Token

/-- No word goes on from one text to the next: one of them is empty, or a character that is a token by itself
    stands at the border. -/
def Apart (s t : Text) : Prop :=
  s = [] ∨ t = [] ∨ s.getLast?.any (fun c => (ofChar? c).isSome) ∨ t.head?.any fun c => (ofChar? c).isSome

instance (s t : Text) : Decidable (Apart s t) :=
  inferInstanceAs (Decidable (_ ∨ _ ∨ _ ∨ _))

section
variable {s t : Text} {ts us : List Token} {x y : Token} {v w : Text}

/-! ### The border -/

/-- The characters of a mark are tokens by themselves, those of a word are not. -/
theorem isSome_of_mem_value (h : IsMark x ∨ IsWord x) {c : Char} (hc : c ∈ x.value) :
    (ofChar? c).isSome ↔ x.kind ≠ .word := by
  rcases h with ⟨d, hvalue, hd⟩ | ⟨hkind, -, hword⟩
  · rw [hvalue, List.mem_singleton] at hc
    subst hc
    simp [hd, kind_ne_word_of_ofChar? hd]
  · simp [hword c hc, hkind]

/-- The last token of a text is a word when the last character of the text is no token by itself. -/
theorem Splits.exists_getLast (h : Splits s (ts ++ [x])) :
    ∃ c, s.getLast? = some c ∧ ((ofChar? c).isSome ↔ x.kind ≠ .word) := by
  have hx := h.each x (List.mem_append_right ts (List.mem_singleton_self x))
  have hlast : s.getLast? = some (x.value.getLast (value_ne_nil hx)) := by
    rw [← h.values, List.flatMap_append, List.flatMap_singleton, List.getLast?_append_of_ne_nil _ (value_ne_nil hx),
      List.getLast?_eq_getLast_of_ne_nil]
  exact ⟨_, hlast, isSome_of_mem_value hx (List.getLast_mem _)⟩

/-- The first token of a text is a word when the first character of the text is no token by itself. -/
theorem Splits.exists_head (h : Splits s (x :: ts)) :
    ∃ c, s.head? = some c ∧ ((ofChar? c).isSome ↔ x.kind ≠ .word) := by
  have hx := h.each x List.mem_cons_self
  obtain ⟨c, rest, hvalue⟩ := List.exists_cons_of_ne_nil (value_ne_nil hx)
  refine ⟨c, ?_, isSome_of_mem_value hx (hvalue ▸ List.mem_cons_self)⟩
  rw [← h.values, List.flatMap_cons, hvalue]
  rfl

theorem apart_iff (hs : Splits s (ts ++ [x])) (ht : Splits t (y :: us)) :
    Apart s t ↔ ¬(x.kind = .word ∧ y.kind = .word) := by
  obtain ⟨c, hc, hx⟩ := hs.exists_getLast
  obtain ⟨d, hd, hy⟩ := ht.exists_head
  have hsne : s ≠ [] := by
    rintro rfl
    cases hc
  have htne : t ≠ [] := by
    rintro rfl
    cases hd
  simp [Apart, hsne, htne, hc, hd, hx, hy, imp_iff_not_or]

/-! ### Tokens put together -/

theorem Splits.append (hs : Splits s ts) (ht : Splits t us)
    (hborder : ∀ x ∈ ts.getLast?, ∀ y ∈ us.head?, ¬(x.kind = .word ∧ y.kind = .word)) :
    Splits (s ++ t) (ts ++ us) where
  values := by rw [List.flatMap_append, hs.values, ht.values]
  each u hu := (List.mem_append.mp hu).elim (hs.each u) (ht.each u)
  apart := List.isChain_append.mpr ⟨hs.apart, ht.apart, hborder⟩

theorem isWord_of_kind (h : IsMark x ∨ IsWord x) (hkind : x.kind = .word) : IsWord x := by
  rcases h with ⟨c, -, hc⟩ | hword
  · exact absurd hkind (kind_ne_word_of_ofChar? hc)
  · exact hword

/-- A word at the end and a word at the beginning become one. -/
theorem Splits.join (hs : Splits s (ts ++ [⟨.word, v⟩])) (ht : Splits t (⟨.word, w⟩ :: us)) :
    Splits (s ++ t) (ts ++ ⟨.word, v ++ w⟩ :: us) where
  values := by
    rw [← hs.values, ← ht.values]
    simp
  each u hu := by
    obtain ⟨-, hne, hv⟩ := isWord_of_kind (hs.each _ (List.mem_append_right ts (List.mem_singleton_self _))) rfl
    obtain ⟨-, -, hw⟩ := isWord_of_kind (ht.each _ List.mem_cons_self) rfl
    rcases List.mem_append.mp hu with hu | hu
    · exact hs.each u (List.mem_append_left _ hu)
    · rcases List.mem_cons.mp hu with rfl | hu
      · refine Or.inr ⟨rfl, List.append_ne_nil_of_left_ne_nil hne w, fun c hc => ?_⟩
        exact (List.mem_append.mp hc).elim (hv c) (hw c)
      · exact ht.each u (List.mem_cons_of_mem _ hu)
  apart := by
    obtain ⟨hts, -, hbefore⟩ := List.isChain_append.mp hs.apart
    obtain ⟨hafter, hus⟩ := List.isChain_cons.mp ht.apart
    refine hts.append (hus.cons hafter) fun u hu joined hjoined => ?_
    obtain rfl := Option.some.inj hjoined
    exact hbefore u hu ⟨.word, v⟩ rfl

/-- The cut of two texts put together. -/
theorem cut_append (s t : Text) :
    (Apart s t → cut (s ++ t) = cut s ++ cut t) ∧
      (¬Apart s t → ∃ ts v w us, cut s = ts ++ [⟨.word, v⟩] ∧ cut t = ⟨.word, w⟩ :: us ∧
        cut (s ++ t) = ts ++ ⟨.word, v ++ w⟩ :: us) := by
  have hs := splits_cut s
  have ht := splits_cut t
  rcases List.eq_nil_or_concat (cut s) with hnil | ⟨ts, x, hx⟩
  · obtain rfl : s = [] := by rw [← hs.values, hnil, List.flatMap_nil]
    exact ⟨fun _ => rfl, fun h => absurd (Or.inl rfl) h⟩
  cases hy : cut t with
  | nil =>
    obtain rfl : t = [] := by rw [← ht.values, hy, List.flatMap_nil]
    refine ⟨fun _ => ?_, fun h => absurd (Or.inr (Or.inl rfl)) h⟩
    rw [List.append_nil, List.append_nil]
  | cons y us =>
    rw [List.concat_eq_append] at hx
    rw [hx] at hs
    rw [hy] at ht
    rw [apart_iff hs ht, hx]
    refine ⟨fun h => (eq_cut_of_splits (hs.append ht ?_)).symm, fun h => ?_⟩
    · rw [List.getLast?_concat]
      rintro _ ⟨⟩ _ ⟨⟩
      exact h
    · obtain ⟨hkind, hkind'⟩ := not_not.mp h
      obtain ⟨kind, v⟩ := x
      obtain ⟨kind', w⟩ := y
      subst hkind
      subst hkind'
      exact ⟨ts, v, w, us, rfl, rfl, (eq_cut_of_splits (hs.join ht)).symm⟩

end
end Token

/-! ### Relocating -/

namespace Location

/-- The location in a longer text, of which a part up to a base comes first: in the first row the columns of the
    part count too. -/
def relocate (base l : Location) : Location :=
  ⟨l.row + base.row, if l.row = 0 then l.column + base.column else l.column, l.offset + base.offset⟩

theorem relocate_zero (base : Location) : relocate base zero = base := by
  simp [relocate, zero]

theorem row_nonneg_after {l : Location} (hl : 0 ≤ l.row) (cell : Text) : 0 ≤ (l.after cell).row := by
  unfold after
  split
  · exact Int.add_nonneg hl (by decide)
  · exact hl

theorem relocate_after (base : Location) {l : Location} (hl : 0 ≤ l.row) (cell : Text) :
    relocate base (l.after cell) = (relocate base l).after cell := by
  by_cases h : cell.isLineEnd
  · -- A row that a line feed has ended is not the first.
    have hne : l.row + 1 ≠ 0 := by omega
    simp only [after, relocate, h, if_true, if_neg hne, Int.add_right_comm _ 1]
  · simp only [after, relocate, h, Bool.false_eq_true, if_false, Int.add_right_comm _ 1]
    split
    · rfl
    · rfl

theorem relocate_walk (base : Location) {l : Location} (hl : 0 ≤ l.row) (t : Text) :
    relocate base (l.walk t) = (relocate base l).walk t := by
  induction t generalizing l with
  | nil => rfl
  | cons c t ih => rw [walk_cons, ih (row_nonneg_after hl [c]), relocate_after base hl, walk_cons]

theorem row_nonneg_walk {l : Location} (hl : 0 ≤ l.row) (t : Text) : 0 ≤ (l.walk t).row := by
  rw [walk_eq]
  exact Int.add_nonneg hl (Int.natCast_nonneg _)

end Location

namespace Span

def relocate (base : Location) (s : Span) : Span :=
  ⟨.relocate base s.start, .relocate base s.stop⟩

end Span

namespace Item

/-- The same token in a source where a part up to a base comes before its text. -/
def relocate (o : Origin) (base : Location) (i : Item) : Item :=
  ⟨i.token, ⟨o, .relocate base i.span.inner⟩⟩

theorem map_relocate_layOut (o : Origin) (base : Location) {l : SourceLocation} (hl : 0 ≤ l.inner.row)
    (ts : List Token) : (layOut l ts).map (relocate o base) = layOut ⟨o, .relocate base l.inner⟩ ts := by
  induction ts generalizing l with
  | nil => rfl
  | cons t ts ih =>
    rw [layOut, List.map_cons, ih (Location.row_nonneg_walk hl t.value), layOut]
    simp only [relocate, Span.relocate, SourceLocation.spanTo, SourceLocation.walk, InSource.map, Location.spanTo,
      Location.relocate_walk base hl]

theorem layOut_append (l : SourceLocation) (ts us : List Token) :
    layOut l (ts ++ us) = layOut l ts ++ layOut (SourceLocation.walk l (ts.flatMap (·.value))) us := by
  induction ts generalizing l with
  | nil => rfl
  | cons t ts ih =>
    rw [List.cons_append, layOut, ih, layOut, List.flatMap_cons, SourceLocation.walk_append, List.cons_append]

end Item

/-- The tokens of two texts put together: those of the first, and those of the second relocated behind it. A word at
    the end of the first and a word at the beginning of the second become one. -/
theorem tokenize_append (name : String) (s t : Text) :
    let o : Origin := ⟨name, some (s ++ t)⟩
    let first := (tokenize name s).map (Item.inSource o)
    let second := (tokenize name t).map (Item.relocate o (Location.zero.walk s))
    (Token.Apart s t → tokenize name (s ++ t) = first ++ second) ∧
      (¬Token.Apart s t → ∃ before after v w span span', first = before ++ [⟨⟨.word, v⟩, span⟩] ∧
        second = ⟨⟨.word, w⟩, span'⟩ :: after ∧
        tokenize name (s ++ t) = before ++ ⟨⟨.word, v ++ w⟩, SourceSpan.spanTo span span'.inner.stop⟩ :: after) := by
  intro o first second
  have hfirst : first = Item.layOut o.start (Token.cut s) := Item.map_inSource_tokenize o name s
  have hsecond : second = Item.layOut ⟨o, Location.zero.walk s⟩ (Token.cut t) := by
    have h := Item.map_relocate_layOut o (Location.zero.walk s) (l := Origin.start ⟨name, some t⟩) (Int.le_refl 0)
      (Token.cut t)
    rw [← Item.ofText, ← tokenize_eq, Origin.start, Location.relocate_zero] at h
    exact h
  have hwhole : tokenize name (s ++ t) = Item.layOut o.start (Token.cut (s ++ t)) := tokenize_eq name (s ++ t)
  rw [hfirst, hsecond, hwhole]
  obtain ⟨hapart, hjoined⟩ := Token.cut_append s t
  refine ⟨fun h => ?_, fun h => ?_⟩
  · rw [hapart h, Item.layOut_append, Token.flatMap_value_cut]
    rfl
  · obtain ⟨ts, v, w, us, hs, ht, hst⟩ := hjoined h
    -- The words meet where the first text ends.
    have hborder : Location.zero.walk s = (Location.zero.walk (ts.flatMap (·.value))).walk v := by
      rw [← Location.walk_append, ← Token.flatMap_value_cut s, hs, List.flatMap_append, List.flatMap_singleton]
    rw [hs, ht, hst, Item.layOut_append, Item.layOut_append, hborder]
    refine ⟨_, _, v, w, _, _, rfl, rfl, ?_⟩
    simp only [Item.layOut, SourceLocation.walk, SourceLocation.spanTo, SourceSpan.spanTo, InSource.map,
      Location.spanTo, Span.spanTo, Location.walk_append]
    rfl

/-- White space keeps two words apart; without it the word goes on, in the row in which the first text ends. -/
theorem tokenize_append_of_two_rows :
    let relocated (o : Origin) := Item.relocate o (Location.zero.walk ['a', '\n', 'b'])
    let spaced : Origin := ⟨"notes", some ['a', '\n', 'b', ' ', 'c']⟩
    let joined : Origin := ⟨"notes", some ['a', '\n', 'b', 'c', '-']⟩
    tokenize "notes" ['a', '\n', 'b', ' ', 'c'] = (tokenize "notes" ['a', '\n', 'b']).map (Item.inSource spaced) ++
        (tokenize "notes" [' ', 'c']).map (relocated spaced) ∧
      ∃ before after v w span span',
        (tokenize "notes" ['a', '\n', 'b']).map (Item.inSource joined) = before ++ [⟨⟨.word, v⟩, span⟩] ∧
        (tokenize "notes" ['c', '-']).map (relocated joined) = ⟨⟨.word, w⟩, span'⟩ :: after ∧
        tokenize "notes" ['a', '\n', 'b', 'c', '-'] =
          before ++ ⟨⟨.word, v ++ w⟩, SourceSpan.spanTo span span'.inner.stop⟩ :: after :=
  ⟨(tokenize_append "notes" ['a', '\n', 'b'] [' ', 'c']).1 (by decide),
    (tokenize_append "notes" ['a', '\n', 'b'] ['c', '-']).2 (by decide)⟩

end Lexeme
