import Lexeme.Proofs.Reads

/-! # Streams over readers that fail

A stream gives the items of the characters that its reader delivers, then the error of reading once, and
nothing after it. Told to do so when it was opened, it drops the last of these items: exactly when a word
has begun by then, since from the first character of a word on something is always held. -/

namespace Lexeme

namespace TokenStream

/-- The items that were given out before the error, and the policy for the one that is held. -/
theorem gives_of_failed {s : TokenStream} {o : Origin} (hs : s.Fresh o) {t : Text} {error : ReadError}
    (hd : s.chars.feed.delivery = ⟨t, .failed error⟩) :
    Gives next s ((if s.flushOnError = false ∧ t.any Token.isWordChar then (Item.ofText o t).dropLast
      else Item.ofText o t).map .item ++ [.stop (.failed error)]) := by
  rcases hs.gives hd with ⟨hword, hgives⟩ | ⟨items, x, hword, hitems, hgives⟩
  · -- No word has begun, so that there is nothing to drop.
    have hending : ending s.flushOnError none (.failed error) = [.stop (.failed error)] := by simp [ending]
    rw [hending] at hgives
    rwa [if_neg (by simp [hword])]
  · cases hflush : s.flushOnError with
    | false =>
      rw [hflush] at hgives
      rw [if_pos ⟨rfl, hword⟩, hitems, List.dropLast_concat]
      exact hgives
    | true =>
      rw [hflush] at hgives
      rw [if_neg (by simp), hitems, List.map_append, List.append_assoc]
      exact hgives

/-- What a stream over a reader gives, by what the reader delivers, with any codecs that give no lone surrogates. An
    error names the source, and its cause is what failed in a read. -/
theorem outcome_ofReader {codecs : Codecs} {name : String} {input : ReaderInput} {encoding errors : Option String}
    {making opening : Config} {s : TokenStream} {rest : Source} {event : LogEvent}
    (h : ofSource (Source.ofReader codecs name input encoding errors making) opening = .ok (s, rest, event))
    (other : String) (t : Text) :
    let items := (tokenize other t).map (Item.inSource ⟨name, none⟩)
    (∀ error, s.chars.feed.Delivers t (.failed error) →
      Gives next s ((if opening.flushOnError = false ∧ t.any Token.isWordChar then items.dropLast
        else items).map .item ++ [.stop (.failed error)]) ∧
      error.source = name ∧ error.message = name ++ ": " ++ error.cause.message ∧ error.cause.isReadFailure ∧
      ∃ c, codecs.find (Source.nameOr encoding making.encoding) (Source.nameOr errors making.decodeErrors) = .ok c ∧
        Read.Fails c input.reads t error.cause) ∧
    (s.chars.feed.Delivers t .finished → Gives next s (items.map .item)) := by
  obtain ⟨hfresh, -, hflush⟩ := ofSource_eq_ok h
  have hfeed := Source.feed_of_opened h
  have hitems : (tokenize other t).map (Item.inSource ⟨name, none⟩) = Item.ofText ⟨name, none⟩ t :=
    Item.map_inSource_tokenize ⟨name, none⟩ other t
  rw [hitems]
  refine ⟨fun error hdelivers => ?_, fun hdelivers => ?_⟩
  · have hd := Feed.delivers_iff.mp hdelivers
    refine ⟨hflush ▸ gives_of_failed hfresh hd, ?_⟩
    rw [hfeed] at hd
    obtain ⟨hsource, hfailure, hfails⟩ :=
      Reader.fails_of_delivery (r := Source.reader codecs name input encoding errors making) rfl hd
    have hmessage : error.message = name ++ ": " ++ error.cause.message := by
      rw [ReadError.message, hsource]
      rfl
    exact ⟨hsource, hmessage, hfailure, hfails⟩
  · exact gives_ofText hfresh (Feed.delivers_iff.mp hdelivers)

/-- The word before a failure is dropped, the mark before it is not; at the end both are given out. -/
theorem outcome_of_last_word :
    let source last := Source.ofReader .standard "notes" (.script [.text ['-', 'a'], last]) none none {}
    let items := (tokenize "notes" ['-', 'a']).map (Item.inSource ⟨"notes", none⟩)
    (∃ s rest event error,
      ofSource (source (.failure .system "gone")) { flushOnError := false } = .ok (s, rest, event) ∧
      s.chars.feed.Delivers ['-', 'a'] (.failed error) ∧ error.message = "notes: gone" ∧
      Gives next s (items.dropLast.map .item ++ [.stop (.failed error)])) ∧
    ∃ s rest event, ofSource (source (.text [])) { flushOnError := false } = .ok (s, rest, event) ∧
      s.chars.feed.Delivers ['-', 'a'] .finished ∧ Gives next s (items.map .item) :=
  ⟨⟨_, _, _, ⟨"notes", .reported .system "gone"⟩, rfl, Feed.delivers_iff.mpr (by decide), rfl,
      ((outcome_ofReader rfl "notes" ['-', 'a']).1 _ (Feed.delivers_iff.mpr (by decide))).1⟩,
    _, _, _, rfl, Feed.delivers_iff.mpr (by decide),
    (outcome_ofReader rfl "notes" ['-', 'a']).2 (Feed.delivers_iff.mpr (by decide))⟩

end TokenStream

end Lexeme
