import Lexeme.Token
import Mathlib.Data.List.Chain

/-! # The cut of a text into tokens

A character that is a token by itself is one; what lies between two of these is a word, taken whole. There
is one way only to cut a text so (`splits_iff`): a word cannot end before the next character that is a token
by itself, as the next token would be a word too, and it cannot go on after it. -/

namespace Lexeme.Token

/-- A token that one character is by itself. -/
def IsMark (t : Token) : Prop :=
  ∃ c, t.value = [c] ∧ ofChar? c = some t

/-- A word: not empty, and of characters only that are no tokens by themselves. -/
def IsWord (t : Token) : Prop :=
  t.kind = .word ∧ t.value ≠ [] ∧ ∀ c ∈ t.value, ofChar? c = none

/-- Tokens that make up a text: marks and words, of which no two stand side by side. -/
structure Splits (text : Text) (tokens : List Token) : Prop where
  values : tokens.flatMap (·.value) = text
  each : ∀ t ∈ tokens, IsMark t ∨ IsWord t
  apart : tokens.IsChain fun t u => ¬(t.kind = .word ∧ u.kind = .word)

/-- Puts a character before tokens: as a token of its own, into the word that comes first, or as a new
    word. -/
def putBefore (c : Char) (tokens : List Token) : List Token :=
  match ofChar? c, tokens with
  | some t, tokens => t :: tokens
  | none, ⟨.word, value⟩ :: tokens => ⟨.word, c :: value⟩ :: tokens
  | none, tokens => ⟨.word, [c]⟩ :: tokens

/-- The tokens of a text. -/
def cut : Text → List Token
  | [] => []
  | c :: rest => putBefore c (cut rest)

/-! ### Characters that are tokens by themselves -/

theorem ofMark?_ne_word {c : Char} {kind : TokenKind} (h : TokenKind.ofMark? c = some kind) : kind ≠ .word := by
  obtain ⟨before, after, hmarks, -⟩ := List.lookup_eq_some_iff.mp h
  have hmem : (c, kind) ∈ TokenKind.marks := by
    rw [hmarks]
    exact List.mem_append_right before List.mem_cons_self
  have hall : ∀ entry ∈ TokenKind.marks, entry.2 ≠ .word := by decide
  exact hall _ hmem

theorem ofChar?_eq_some {c : Char} {t : Token} (h : ofChar? c = some t) : t.value = [c] ∧ t.kind ≠ .word := by
  unfold ofChar? classify at h
  split at h
  · cases h
    exact ⟨rfl, TokenKind.noConfusion⟩
  · split at h
    · cases h
      exact ⟨rfl, TokenKind.noConfusion⟩
    · obtain ⟨kind, hk, rfl⟩ := Option.map_eq_some_iff.mp h
      exact ⟨rfl, ofMark?_ne_word hk⟩

theorem value_of_ofChar? {c : Char} {t : Token} (h : ofChar? c = some t) : t.value = [c] :=
  (ofChar?_eq_some h).1

theorem kind_ne_word_of_ofChar? {c : Char} {t : Token} (h : ofChar? c = some t) : t.kind ≠ .word :=
  (ofChar?_eq_some h).2

theorem isMark_of_ofChar? {c : Char} {t : Token} (h : ofChar? c = some t) : IsMark t :=
  ⟨c, value_of_ofChar? h, h⟩

theorem isWord_singleton {c : Char} (h : ofChar? c = none) : IsWord ⟨.word, [c]⟩ := by
  refine ⟨rfl, List.cons_ne_nil _ _, fun d hd => ?_⟩
  rw [List.mem_singleton.mp hd]
  exact h

/-! ### Putting a character before tokens -/

theorem putBefore_of_some {c : Char} {t : Token} (h : ofChar? c = some t) (ts : List Token) :
    putBefore c ts = t :: ts := by
  simp [putBefore, h]

theorem putBefore_word {c : Char} (h : ofChar? c = none) (value : Text) (ts : List Token) :
    putBefore c (⟨.word, value⟩ :: ts) = ⟨.word, c :: value⟩ :: ts := by
  simp [putBefore, h]

theorem putBefore_of_apart {c : Char} (h : ofChar? c = none) {ts : List Token}
    (hts : ∀ t ∈ ts.head?, t.kind ≠ .word) : putBefore c ts = ⟨.word, [c]⟩ :: ts := by
  cases ts with
  | nil => simp [putBefore, h]
  | cons t ts =>
    obtain ⟨kind, value⟩ := t
    have hkind : kind ≠ .word := hts ⟨kind, value⟩ rfl
    cases kind <;> first | exact absurd rfl hkind | simp [putBefore, h]

theorem head_word_or_apart (ts : List Token) :
    (∃ value rest, ts = ⟨.word, value⟩ :: rest) ∨ ∀ t ∈ ts.head?, t.kind ≠ .word := by
  cases ts with
  | nil => exact Or.inr (by simp)
  | cons t ts =>
    obtain ⟨kind, value⟩ := t
    by_cases hkind : kind = .word
    · exact Or.inl ⟨value, ts, by rw [hkind]⟩
    · refine Or.inr fun u hu => ?_
      cases hu
      exact hkind

theorem splits_putBefore {text : Text} {ts : List Token} (h : Splits text ts) (c : Char) :
    Splits (c :: text) (putBefore c ts) := by
  obtain ⟨hvalues, heach, hapart⟩ := h
  cases hc : ofChar? c with
  | some t =>
    rw [putBefore_of_some hc]
    refine ⟨?_, ?_, ?_⟩
    · rw [List.flatMap_cons, value_of_ofChar? hc, hvalues, List.singleton_append]
    · exact List.forall_mem_cons.mpr ⟨Or.inl (isMark_of_ofChar? hc), heach⟩
    · exact List.isChain_cons.mpr ⟨fun _ _ h => kind_ne_word_of_ofChar? hc h.1, hapart⟩
  | none =>
    rcases head_word_or_apart ts with ⟨value, rest, rfl⟩ | hts
    · rw [putBefore_word hc]
      obtain ⟨hfirst, hrest⟩ := List.forall_mem_cons.mp heach
      obtain ⟨hnext, hchain⟩ := List.isChain_cons.mp hapart
      refine ⟨?_, ?_, ?_⟩
      · rw [← hvalues]
        rfl
      · refine List.forall_mem_cons.mpr ⟨Or.inr ⟨rfl, List.cons_ne_nil _ _, ?_⟩, hrest⟩
        rcases hfirst with ⟨d, hd, hmark⟩ | ⟨-, -, hword⟩
        · exact absurd rfl (kind_ne_word_of_ofChar? hmark)
        · exact List.forall_mem_cons.mpr ⟨hc, hword⟩
      · exact List.isChain_cons.mpr ⟨hnext, hchain⟩
    · rw [putBefore_of_apart hc hts]
      refine ⟨?_, ?_, ?_⟩
      · rw [List.flatMap_cons, hvalues]
        rfl
      · exact List.forall_mem_cons.mpr ⟨Or.inr (isWord_singleton hc), heach⟩
      · exact List.isChain_cons.mpr ⟨fun t ht h => hts t ht h.2, hapart⟩

/-! ### The cut is the one way -/

theorem splits_cut (text : Text) : Splits text (cut text) := by
  induction text with
  | nil => exact ⟨rfl, by simp [cut], .nil⟩
  | cons c rest ih => exact splits_putBefore ih c

/-- A run of word characters before tokens that do not begin with a word is a word. -/
theorem cut_append_of_word {word rest : Text} (hne : word ≠ []) (hword : ∀ c ∈ word, ofChar? c = none)
    (hrest : ∀ t ∈ (cut rest).head?, t.kind ≠ .word) : cut (word ++ rest) = ⟨.word, word⟩ :: cut rest := by
  induction word with
  | nil => exact absurd rfl hne
  | cons c word ih =>
    obtain ⟨hc, hword⟩ := List.forall_mem_cons.mp hword
    show putBefore c (cut (word ++ rest)) = _
    cases word with
    | nil => exact putBefore_of_apart hc hrest
    | cons d word =>
      rw [ih (List.cons_ne_nil _ _) hword]
      exact putBefore_word hc _ _

theorem eq_cut_of_splits {text : Text} {ts : List Token} (h : Splits text ts) : ts = cut text := by
  -- By induction on the tokens: the first of them is what the cut begins with.
  induction ts generalizing text with
  | nil =>
    obtain rfl : text = [] := h.values.symm
    rfl
  | cons t ts ih =>
    obtain ⟨hvalues, heach, hapart⟩ := h
    obtain ⟨hfirst, hrest⟩ := List.forall_mem_cons.mp heach
    obtain ⟨hnext, hchain⟩ := List.isChain_cons.mp hapart
    have hts : ts = cut (ts.flatMap (·.value)) := ih ⟨rfl, hrest, hchain⟩
    rw [List.flatMap_cons] at hvalues
    rw [← hvalues]
    rcases hfirst with ⟨c, hvalue, hmark⟩ | ⟨hkind, hne, hword⟩
    · rw [hvalue, List.singleton_append]
      show _ = putBefore c (cut _)
      rw [putBefore_of_some hmark, ← hts]
    · have hapart' : ∀ u ∈ (cut (ts.flatMap (·.value))).head?, u.kind ≠ .word := by
        rw [← hts]
        exact fun u hu huw => hnext u hu ⟨hkind, huw⟩
      rw [cut_append_of_word hne hword hapart', ← hts, ← hkind]

theorem splits_iff {text : Text} {ts : List Token} : Splits text ts ↔ ts = cut text :=
  ⟨eq_cut_of_splits, fun h => h ▸ splits_cut text⟩

/-! ### What the cut holds -/

theorem flatMap_value_cut (text : Text) : (cut text).flatMap (·.value) = text :=
  (splits_cut text).values

theorem value_ne_nil {t : Token} (h : IsMark t ∨ IsWord t) : t.value ≠ [] := by
  rcases h with ⟨c, hvalue, -⟩ | ⟨-, hne, -⟩
  · rw [hvalue]
    exact List.cons_ne_nil c []
  · exact hne

theorem value_ne_nil_of_mem_cut {text : Text} {t : Token} (h : t ∈ cut text) : t.value ≠ [] :=
  value_ne_nil ((splits_cut text).each t h)

theorem length_le_of_values {ts : List Token} (h : ∀ t ∈ ts, t.value ≠ []) :
    ts.length ≤ (ts.flatMap (·.value)).length := by
  induction ts with
  | nil => exact Nat.le_refl 0
  | cons t ts ih =>
    obtain ⟨ht, hts⟩ := List.forall_mem_cons.mp h
    have hpos : 0 < t.value.length := List.length_pos_iff.mpr ht
    have hle := ih hts
    rw [List.flatMap_cons, List.length_append, List.length_cons]
    omega

theorem length_cut_le (text : Text) : (cut text).length ≤ text.length := by
  have h : (cut text).length ≤ ((cut text).flatMap (·.value)).length :=
    length_le_of_values fun _ ht => value_ne_nil_of_mem_cut ht
  rwa [flatMap_value_cut] at h

end Lexeme.Token
