import Lexeme.Proofs.Gathering
import Lexeme.Proofs.Serving
import Lexeme.Stream

/-! # What a pull of a stream comes to

A pull takes characters until one of them makes the stream give something out, or until there are no more
(`advances`). All that is known of streams follows from this one case distinction: what a run of pulls gives
and what it leaves. -/

namespace Lexeme

namespace CharStream

theorem next_of_item {s : CharStream} {c : Char} (h : s.feed.next.pull = .item c) :
    s.next = ⟨.item (c, s.place), [], ⟨SourceLocation.after s.place [c], s.feed.next.next⟩⟩ := by
  simp [next, h, Feed.log_of_item h]

theorem next_of_stop {s : CharStream} {stop : Stop} (h : s.feed.next.pull = .stop stop) :
    s.next = ⟨.stop stop, s.feed.next.log, ⟨s.place, s.feed.next.next⟩⟩ := by
  simp [next, h]

end CharStream

namespace TokenStream

/-- What a pull can come to. -/
inductive Advances (s : TokenStream) : Reply TokenStream Item → Prop
  | release {t : Text} {f : Feed} {out : Held} {held : Option Held} : s.chars.feed.Serves t f →
      Held.meetAll s.held s.chars.place t = ([out], held) →
      Advances s ⟨out.release, [], { s with chars := ⟨SourceLocation.walk s.chars.place t, f⟩, held }⟩
  | halt {t : Text} {f : Feed} {held : Option Held} {stop : Stop} : s.chars.feed.Serves t f →
      f.next.pull = .stop stop → Held.meetAll s.held s.chars.place t = ([], held) →
      Advances s ({ s with held }.halt stop f.next.log ⟨SourceLocation.walk s.chars.place t, f.next.next⟩)

/-- A stream that has neither ended nor failed, and holds nothing but what lies before its place. -/
structure Live (s : TokenStream) : Prop where
  owed : s.owed = none
  unended : s.exhausted = false
  fits : ∀ x ∈ s.held, x.Fits s.chars.place

/-! ### What halting comes to -/

section
variable {s : TokenStream} {x : Held}

theorem halt_finished_of_none (h : s.held = none) (log : List LogEvent) (chars : CharStream) :
    s.halt .finished log chars = ⟨.stop .finished, log, { s with chars, held := none, exhausted := true }⟩ := by
  simp [halt, h]

theorem halt_finished_of_some (h : s.held = some x) (hw : x.IsWhole) (log : List LogEvent) (chars : CharStream) :
    s.halt .finished log chars = ⟨.item x.item, log, { s with chars, held := none, exhausted := true }⟩ := by
  rw [← Held.release_of_whole hw]
  simp [halt, h]

theorem halt_failed_of_shown (h : s.held = none ∨ s.flushOnError = false) (error : ReadError)
    (log : List LogEvent) (chars : CharStream) :
    s.halt (.failed error) log chars =
      ⟨.stop (.failed error), log ++ [.surfaced error], { s with chars, held := none, exhausted := true }⟩ := by
  rcases h with h | h
  · simp [halt, h]
  · cases hheld : s.held <;> simp [halt, h, hheld]

theorem halt_failed_of_owed (h : s.held = some x) (hw : x.IsWhole) (hflush : s.flushOnError = true)
    (error : ReadError) (log : List LogEvent) (chars : CharStream) :
    s.halt (.failed error) log chars = ⟨.item x.item, log ++ [.surfaced error],
      { s with chars, held := none, exhausted := true, owed := some error }⟩ := by
  rw [← Held.release_of_whole hw]
  simp [halt, h, hflush]

end

/-! ### What a pull comes to -/

theorem halt_chars (s : TokenStream) (chars chars' : CharStream) (stop : Stop) (log : List LogEvent) :
    { s with chars }.halt stop log chars' = s.halt stop log chars' := by
  cases stop <;> rfl

theorem chars_halt (s : TokenStream) (stop : Stop) (log : List LogEvent) (chars : CharStream) :
    (s.halt stop log chars).next.chars = chars := by
  cases stop with
  | finished => cases h : s.held <;> simp [halt, h]
  | failed error => cases h : s.held <;> cases hflush : s.flushOnError <;> simp [halt, h, hflush]
  | interrupted failure => rfl

/-- What the characters show to a pull that goes to them: each of them that it takes, and why there are no more
    if it comes to that. -/
def draw (s : TokenStream) : List (Pull Char) :=
  let reply := s.chars.next
  match _h : reply.pull with
  | .stop stop => [.stop stop]
  | .item (c, l) =>
    match Held.meet s.held c l with
    | (_, some _) => [.item c]
    | (held, none) => .item c :: draw { s with chars := reply.next, held }
termination_by s.chars.delivery.text.length
decreasing_by
  have := (CharStream.next_item _h).1
  simp [this, Delivery.after]

theorem draw_of_stop {s : TokenStream} {stop : Stop} (h : s.chars.next.pull = .stop stop) :
    s.draw = [.stop stop] := by
  rw [draw]
  split
  · next h' => rw [h] at h'; cases h'; rfl
  · next h' => rw [h] at h'; cases h'

theorem draw_of_release {s : TokenStream} {c : Char} {l : SourceLocation} {held : Option Held} {out : Held}
    (h : s.chars.next.pull = .item (c, l)) (hm : Held.meet s.held c l = (held, some out)) :
    s.draw = [.item c] := by
  rw [draw]
  split
  · next h' => rw [h] at h'; cases h'
  · next h' => rw [h] at h'; cases h'; simp [hm]

theorem draw_of_hold {s : TokenStream} {c : Char} {l : SourceLocation} {held : Option Held}
    (h : s.chars.next.pull = .item (c, l)) (hm : Held.meet s.held c l = (held, none)) :
    s.draw = .item c :: draw { s with chars := s.chars.next.next, held } := by
  rw [draw]
  split
  · next h' => rw [h] at h'; cases h'
  · next h' => rw [h] at h'; cases h'; simp [hm]

/-- What a pull can come to, with what the characters show to it. -/
inductive Draws (s : TokenStream) : List (Pull Char) → Reply TokenStream Item → Prop
  | release {t : Text} {f : Feed} {out : Held} {held : Option Held} : s.chars.feed.Serves t f →
      Held.meetAll s.held s.chars.place t = ([out], held) →
      Draws s (t.map .item) ⟨out.release, [], { s with chars := ⟨SourceLocation.walk s.chars.place t, f⟩, held }⟩
  | halt {t : Text} {f : Feed} {held : Option Held} {stop : Stop} : s.chars.feed.Serves t f →
      f.next.pull = .stop stop → Held.meetAll s.held s.chars.place t = ([], held) →
      Draws s (t.map .item ++ [.stop stop])
        ({ s with held }.halt stop f.next.log ⟨SourceLocation.walk s.chars.place t, f.next.next⟩)

/-- A character that is held back comes first in what the pull takes. -/
theorem Draws.after_hold {s : TokenStream} {c : Char} {held : Option Held} {shown : List (Pull Char)}
    {r : Reply TokenStream Item} (hc : s.chars.feed.next.pull = .item c)
    (hm : Held.meet s.held c s.chars.place = (held, none))
    (h : Draws { s with chars := ⟨SourceLocation.after s.chars.place [c], s.chars.feed.next.next⟩, held } shown r) :
    Draws s (.item c :: shown) r := by
  have hall : ∀ t, Held.meetAll s.held s.chars.place (c :: t) =
      Held.meetAll held (SourceLocation.after s.chars.place [c]) t := by
    intro t
    rw [Held.meetAll_cons, hm]
    rfl
  cases h with
  | release hserves hmeet => exact .release (.cons hc hserves) ((hall _).trans hmeet)
  | halt hserves hstop hmeet =>
    have := Draws.halt (s := s) (.cons hc hserves) hstop ((hall _).trans hmeet)
    rw [← halt_chars _ ⟨SourceLocation.after s.chars.place [c], s.chars.feed.next.next⟩] at this
    exact this

theorem draws (s : TokenStream) : Draws s s.draw s.advance := by
  -- By induction on the text that is still to come.
  generalize ht : s.chars.feed.delivery.text = t
  induction t generalizing s with
  | nil =>
    cases hp : s.chars.feed.next.pull with
    | item c =>
      have hd := Feed.delivery_next_item hp
      rw [hd] at ht
      cases ht
    | stop stop =>
      have hchars := CharStream.next_of_stop hp
      have hpull : s.chars.next.pull = .stop stop := by rw [hchars]
      rw [draw_of_stop hpull, advance_of_stop hpull, hchars]
      exact .halt (.nil _) hp rfl
  | cons c t ih =>
    obtain ⟨hp, hrest⟩ := Feed.next_of_delivery_cons (f := s.chars.feed) (c := c) (t := t) (by rw [← ht])
    have hchars := CharStream.next_of_item hp
    have hpull : s.chars.next.pull = .item (c, s.chars.place) := by rw [hchars]
    cases hm : Held.meet s.held c s.chars.place with
    | mk held out =>
      cases out with
      | some out =>
        rw [draw_of_release hpull hm, advance_of_release hpull hm, hchars]
        refine .release (t := [c]) (.cons hp (.nil _)) ?_
        rw [Held.meetAll_cons, hm]
        rfl
      | none =>
        rw [draw_of_hold hpull hm, advance_of_hold hpull hm, hchars]
        exact .after_hold hp hm (ih _ (by rw [hrest]))

theorem Draws.shows {s : TokenStream} {shown : List (Pull Char)} {r : Reply TokenStream Item} (h : Draws s shown r) :
    s.chars.feed.Shows shown r.next.chars.feed := by
  cases h with
  | release hserves hmeet => exact hserves.shows
  | @halt t f held stop hserves hstop hmeet =>
    have hlast := f.shows_one
    rw [hstop] at hlast
    rw [chars_halt]
    exact hserves.shows.trans hlast

theorem advances (s : TokenStream) : Advances s s.advance := by
  have h := draws s
  generalize s.draw = shown at h
  generalize s.advance = r at h
  cases h with
  | release hserves hmeet => exact .release hserves hmeet
  | halt hserves hstop hmeet => exact .halt hserves hstop hmeet

theorem next_of_live {s : TokenStream} (h : s.Live) : s.next = s.advance := by
  simp [next, h.owed, h.unended]

theorem next_of_owed {s : TokenStream} {error : ReadError} (h : s.owed = some error) :
    s.next = ⟨.stop (.failed error), [], { s with owed := none }⟩ := by
  simp [next, h]

theorem next_of_ended {s : TokenStream} (howed : s.owed = none) (h : s.exhausted = true) :
    s.next = ⟨.stop .finished, [], s⟩ := by
  simp [next, howed, h]

end TokenStream
end Lexeme
