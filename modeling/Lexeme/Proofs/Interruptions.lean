import Lexeme.Proofs.Reads
import Lexeme.Proofs.States

/-! # Streams over readers that are interrupted

A failure that is none of reading passes through a stream, which neither ends nor gives up what it holds. Its
characters are over by then, so that the next pull finds the end of the input and gives out the token that was
held. No character is lost, and nothing is read any more. -/

namespace Lexeme.TokenStream

section
variable {s : TokenStream} {o : Origin} {failure : Failure}

/-- All items but the one that is held come before the failure, and that one comes after it. -/
theorem gives_of_interrupted (hs : s.Fresh o) {t : Text}
    (hd : s.chars.feed.delivery = ⟨t, .interrupted failure⟩) :
    Gives next s (if t.any Token.isWordChar then
        (Item.ofText o t).dropLast.map .item ++
          .stop (.interrupted failure) :: (Item.ofText o t).getLast?.toList.map .item
      else (Item.ofText o t).map .item ++ [.stop (.interrupted failure)]) := by
  rcases hs.gives hd with ⟨hword, hgives⟩ | ⟨items, x, hword, hitems, hgives⟩
  · rw [if_neg (by simp [hword])]
    exact hgives
  · rw [if_pos hword, hitems, List.dropLast_concat, List.getLast?_concat]
    exact hgives

/-- A failure that passed through was shown by the characters. -/
theorem interrupted_mem_drawnAfter (hs : s.Fresh o) {count : Nat}
    (hraised : .stop (.interrupted failure) ∈ (pullWith next count s).map (·.pull)) :
    .stop (.interrupted failure) ∈ drawnAfter count s := by
  induction count with
  | zero => cases hraised
  | succ count ih =>
    rw [pullWith_add, List.map_append] at hraised
    rw [drawnAfter_add, drawnAfter_one]
    rcases List.mem_append.mp hraised with hraised | hraised
    · exact List.mem_append_left _ (ih hraised)
    · have hpull : (stateAfter next count s).next.pull = .stop (.interrupted failure) :=
        (List.mem_singleton.mp hraised).symm
      cases standing_stateAfter hs count with
      | running hlive hsome => exact List.mem_append_right _ (stop_mem_drawn hlive hpull)
      | ended hended hheld hmet =>
        cases howed : (stateAfter next count s).owed with
        | none =>
          rw [next_of_ended howed hended] at hpull
          cases hpull
        | some error =>
          rw [next_of_owed howed] at hpull
          cases hpull

/-- Nothing is read any more after a failure that passed through. -/
theorem feed_of_interrupted (hs : s.Fresh o) {count : Nat}
    (hraised : .stop (.interrupted failure) ∈ (pullWith next count s).map (·.pull)) (later : Nat) :
    (stateAfter next (count + later) s).chars.feed = (stateAfter next count s).chars.feed := by
  have hover := (shows_drawnAfter count s).isOver (interrupted_mem_drawnAfter hs hraised)
  obtain ⟨-, hfeed⟩ := shows_drawnAfter later (stateAfter next count s)
  rw [hover.stateAfter] at hfeed
  rw [stateAfter_add, hfeed]

end

/-- What a stream over a reader gives that is interrupted, whatever the policy for errors and with any codecs that give
    no lone surrogates, and what interrupts a reader: it finds no codec, or a read fails with what is no failure of
    reading. -/
theorem outcome_of_interruption {codecs : Codecs} {name : String} {input : ReaderInput}
    {encoding errors : Option String} {making opening : Config} {s : TokenStream} {rest : Source} {event : LogEvent}
    (h : ofSource (Source.ofReader codecs name input encoding errors making) opening = .ok (s, rest, event))
    (other : String) (t : Text) (failure : Failure) :
    let items := (tokenize other t).map (Item.inSource ⟨name, none⟩)
    let raised : Pull Item := .stop (.interrupted failure)
    let found := codecs.find (Source.nameOr encoding making.encoding) (Source.nameOr errors making.decodeErrors)
    (s.chars.feed.Delivers t (.interrupted failure) ↔
      t = [] ∧ found = .error failure ∨
        failure.isReadFailure = false ∧ ∃ c, found = .ok c ∧ Read.Fails c input.reads t failure) ∧
    (s.chars.feed.Delivers t (.interrupted failure) →
      Gives next s (if t.any Token.isWordChar then
          items.dropLast.map .item ++ raised :: items.getLast?.toList.map .item
        else items.map .item ++ [raised]) ∧
      ∀ count later, raised ∈ (pullWith next count s).map (·.pull) →
        (stateAfter next (count + later) s).chars.feed = (stateAfter next count s).chars.feed) := by
  obtain ⟨hfresh, -, -⟩ := ofSource_eq_ok h
  have hfeed := Source.feed_of_opened h
  have hitems : (tokenize other t).map (Item.inSource ⟨name, none⟩) = Item.ofText ⟨name, none⟩ t :=
    Item.map_inSource_tokenize ⟨name, none⟩ other t
  rw [hitems, Feed.delivers_iff]
  refine ⟨?_, fun hd => ⟨gives_of_interrupted hfresh hd, fun count later hraised => ?_⟩⟩
  · rw [hfeed]
    exact Reader.delivery_eq_interrupted (r := Source.reader codecs name input encoding errors making) rfl
  · exact feed_of_interrupted hfresh hraised later

/-- A failure in the middle of a word comes before the word, though read errors would drop it. -/
theorem outcome_of_interrupted_word :
    let source := Source.ofReader .standard "notes" (.script [.text ['-', 'a'], .failure .runtime "gone"]) none none {}
    let items := (tokenize "notes" ['-', 'a']).map (Item.inSource ⟨"notes", none⟩)
    let raised : Pull Item := .stop (.interrupted (.reported .runtime "gone"))
    ∃ s rest event, ofSource source { flushOnError := false } = .ok (s, rest, event) ∧
      s.chars.feed.Delivers ['-', 'a'] (.interrupted (.reported .runtime "gone")) ∧
      Gives next s (items.dropLast.map .item ++ raised :: items.getLast?.toList.map .item) ∧
      raised ∈ (pullWith next 2 s).map (·.pull) ∧
      (stateAfter next (2 + 3) s).chars.feed = (stateAfter next 2 s).chars.feed := by
  have hd : Feed.Delivers (.reader (Source.reader .standard "notes"
      (.script [.text ['-', 'a'], .failure .runtime "gone"]) none none {})) ['-', 'a']
      (.interrupted (.reported .runtime "gone")) :=
    Feed.delivers_iff.mpr (by decide)
  refine ⟨_, _, _, rfl, hd, ?_⟩
  obtain ⟨hgives, hfeed⟩ := (outcome_of_interruption rfl "notes" ['-', 'a'] (.reported .runtime "gone")).2 hd
  refine ⟨hgives, ?_⟩
  have hraised := hgives 2
  rw [Item.map_inSource_tokenize] at hraised
  suffices hmem : Pull.stop (.interrupted (.reported .runtime "gone")) ∈ _ from ⟨hmem, hfeed 2 3 hmem⟩
  rw [hraised]
  exact List.mem_cons_of_mem _ List.mem_cons_self

end Lexeme.TokenStream
