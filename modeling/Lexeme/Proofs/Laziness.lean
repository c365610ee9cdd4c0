import Lexeme.Proofs.Reads
import Lexeme.Proofs.States
import Mathlib.Order.Bounds.Defs

/-! # Nothing is read before it is needed

What reads decode to is given out before the next of them is made. So a reader that has given some characters
has made the least number of reads that these take, whatever the reads decode to (`Feed.Serves.costs`). A stream
runs ahead of what it has given out by one character at most: the one that made it give out what it held. -/

namespace Lexeme

/-! ### What reads are worth -/

namespace Read

/-- The characters that the last read of a reader gives. -/
def finalText : Except Failure Text → Text
  | .ok t => t
  | .error _ => []

/-- The characters that the first reads of a script are decoded to. The read that ends the input is the last to
    give any, and after a script every read is empty. -/
def decoded (c : Codec) : Nat → List Read → Text
  | 0, _ => []
  | _ + 1, [] => finalText (closing c)
  | count + 1, read :: rest =>
    match read.outcome c with
    | .last result => finalText result
    | .more t c => t ++ decoded c count rest

end Read

/-- The characters that a reader has to give before it makes more than a number of further reads. -/
def Reader.within (r : Reader) (count : Nat) : Text :=
  match r.stage with
  | .ended => []
  | .draining _ pending => pending
  | .reading c _ pending => pending ++ Read.decoded c count r.script
  | .unopened =>
    match r.codecs.find r.encoding r.errors with
    | .ok c => Read.decoded c count r.script
    | .error _ => []

def Feed.within : Feed → Nat → Text
  | .memory rest, _ => rest
  | .reader r, count => r.within count

/-- A text costs a number of reads: it comes first of what is there with so many of them, and fewer are not
    worth a text of its length. -/
structure Costs (before : Nat → Text) (t : Text) (reads : Nat) (after : Nat → Text) : Prop where
  first : ∀ n, before (reads + n) = t ++ after n
  least : ∀ n < reads, (before n).length < t.length

namespace Costs

variable {f g h : Nat → Text} {s t : Text} {m n : Nat}

theorem refl (f : Nat → Text) : Costs f [] 0 f where
  first n := by rw [Nat.zero_add, List.nil_append]
  least n hn := absurd hn (Nat.not_lt_zero n)

/-- What is there already costs no read. -/
theorem of_pending {c : Char} (h : ∀ n, f n = c :: g n) : Costs f [c] 0 g where
  first n := by rw [Nat.zero_add, h]; rfl
  least n hn := absurd hn (Nat.not_lt_zero n)

/-- A first read, before which there is nothing, comes on top. -/
theorem succ (hg : Costs g t m h) (hzero : f 0 = []) (hsucc : ∀ n, f (n + 1) = g n) (ht : t ≠ []) :
    Costs f t (m + 1) h where
  first n := by rw [Nat.add_right_comm, hsucc, hg.first]
  least n hn := by
    cases n with
    | zero =>
      rw [hzero]
      exact List.length_pos_iff.mpr ht
    | succ n =>
      rw [hsucc]
      exact hg.least n (Nat.lt_of_succ_lt_succ hn)

theorem trans (hs : Costs f s m g) (ht : Costs g t n h) : Costs f (s ++ t) (m + n) h where
  first k := by rw [Nat.add_assoc, hs.first, ht.first, List.append_assoc]
  least k hk := by
    rw [List.length_append]
    rcases Nat.lt_or_ge k m with hlt | hge
    · exact Nat.lt_add_right _ (hs.least k hlt)
    · obtain ⟨j, rfl⟩ := Nat.exists_eq_add_of_le hge
      rw [hs.first, List.length_append]
      exact Nat.add_lt_add_left (ht.least j (Nat.lt_of_add_lt_add_left hk)) _

theorem isLeast (h : Costs f t m g) : IsLeast {n | t.length ≤ (f n).length} m := by
  refine ⟨?_, fun n hn => ?_⟩
  · have hfirst := h.first 0
    rw [Nat.add_zero] at hfirst
    show t.length ≤ (f m).length
    rw [hfirst, List.length_append]
    exact Nat.le_add_right _ _
  · by_contra hlt
    exact Nat.not_le_of_lt (h.least n (Nat.lt_of_not_le hlt)) hn

end Costs

/-! ### One pull -/

namespace Reader

section
variable {r r' : Reader} {c c' : Codec} {text : Text} {result : Except Failure Text} {reply : Reply Reader Char}

theorem decoded_of_more (ho : r.read.outcome c = .more text c') (count : Nat) :
    Read.decoded c (count + 1) r.script = text ++ Read.decoded c' count r.script.tail := by
  rw [script_of_more ho, Read.decoded, ho]
  rfl

theorem decoded_of_last (ho : r.read.outcome c = .last result) (count : Nat) :
    Read.decoded c (count + 1) r.script = Read.finalText result := by
  rcases r.script_cases with hscript | ⟨hscript, hread⟩
  · rw [hscript, Read.decoded, ho]
  · rw [hread] at ho
    cases ho
    rw [hscript, Read.decoded]

/-- A turn finds the codec, or makes a read before which there is nothing to give. -/
theorem Turn.within (h : Turn r r') :
    r'.reads = r.reads ∧ r'.within = r.within ∨
      r'.reads = r.reads + 1 ∧ r.within 0 = [] ∧ ∀ n, r.within (n + 1) = r'.within n := by
  cases h with
  | finds hs hfind => exact Or.inl ⟨rfl, funext fun n => by simp only [Reader.within, hs, hfind, List.nil_append]⟩
  | reads hs ho =>
    refine Or.inr ⟨rfl, ?_, fun n => ?_⟩
    · simp only [Reader.within, hs, Read.decoded, List.nil_append]
    · simp only [Reader.within, hs, readOn, decoded_of_more ho, List.nil_append]
  | ends hs ho =>
    refine Or.inr ⟨rfl, ?_, fun n => ?_⟩
    · simp only [Reader.within, hs, Read.decoded, List.nil_append]
    · simp only [Reader.within, hs, readOn, decoded_of_last ho, List.nil_append, Read.finalText]

theorem Settles.within (h : Settles r reply) {first : Char} (hpull : reply.pull = .item first) :
    reply.next.reads = r.reads ∧ ∀ n, r.within n = first :: reply.next.within n := by
  cases h with
  | serves hs | drains hs =>
    cases hpull
    exact ⟨rfl, fun n => by simp only [Reader.within, hs, List.cons_append]⟩
  | finishes | fails | refuses | rests => cases hpull

/-- Reads are made until one of them gives a character, and no further. -/
theorem costs_next {first : Char} (h : r.next.pull = .item first) :
    ∃ made, r.next.next.reads = r.reads + made ∧ Costs r.within [first] made r.next.next.within := by
  have hreplies := r.replies_next
  generalize r.next = reply at hreplies h
  induction hreplies with
  | settles hs =>
    obtain ⟨hreads, hwithin⟩ := hs.within h
    exact ⟨0, hreads, .of_pending hwithin⟩
  | turn ht _ ih =>
    obtain ⟨made, hreads, hcosts⟩ := ih h
    rcases ht.within with ⟨hsame, hwithin⟩ | ⟨hmore, hzero, hwithin⟩
    · rw [hsame] at hreads
      rw [hwithin] at hcosts
      exact ⟨made, hreads, hcosts⟩
    · refine ⟨made + 1, ?_, hcosts.succ hzero hwithin (List.cons_ne_nil first [])⟩
      rw [hreads, hmore, Nat.add_right_comm, Nat.add_assoc]

end

end Reader

namespace Feed

theorem costs_next {f : Feed} {c : Char} (h : f.next.pull = .item c) :
    ∃ made, f.next.next.reads? = f.reads?.map (· + made) ∧ Costs f.within [c] made f.next.next.within := by
  cases f with
  | memory rest =>
    cases rest with
    | nil => cases h
    | cons d rest =>
      cases h
      exact ⟨0, rfl, .of_pending fun _ => rfl⟩
  | reader r =>
    simp only [next, Reply.map] at h ⊢
    cases hp : r.next.pull with
    | item d =>
      rw [hp] at h
      cases h
      obtain ⟨made, hreads, hcosts⟩ := Reader.costs_next hp
      exact ⟨made, congrArg some hreads, hcosts⟩
    | stop stop =>
      rw [hp] at h
      cases h

/-! ### Runs of pulls -/

/-- The reads made meanwhile are what the characters cost that were given. -/
theorem Serves.costs {f g : Feed} {t : Text} (h : Serves f t g) :
    ∃ made, g.reads? = f.reads?.map (· + made) ∧ Costs f.within t made g.within := by
  induction h with
  | nil f => exact ⟨0, by cases f <;> rfl, .refl _⟩
  | @cons f g c t hpull _ ih =>
    obtain ⟨first, hfirst, hone⟩ := costs_next hpull
    obtain ⟨rest, hrest, hall⟩ := ih
    refine ⟨first + rest, ?_, hone.trans hall⟩
    rw [hrest, hfirst, Option.map_map]
    exact congrArg (f.reads?.map ·) (funext fun n => Nat.add_assoc n first rest)

theorem Shows.serves {f g : Feed} {shown : List (Pull Char)} (h : Shows f shown g)
    (hitems : ∀ stop, .stop stop ∉ shown) : Serves f (shown.filterMap Pull.item?) g := by
  induction shown generalizing f with
  | nil =>
    obtain ⟨-, rfl⟩ := h
    exact .nil _
  | cons p shown ih =>
    obtain ⟨hfirst, hrest⟩ := shows_cons.mp h
    cases p with
    | stop stop => exact absurd List.mem_cons_self (hitems stop)
    | item c => exact .cons hfirst (ih hrest fun stop hmem => hitems stop (List.mem_cons_of_mem _ hmem))

/-- A feed that gives a character has given one to every pull before. -/
theorem serves_of_item {f : Feed} {count : Nat} {c : Char} (h : (stateAfter next count f).next.pull = .item c) :
    ∃ t, t.length = count + 1 ∧ Serves f t (stateAfter next (count + 1) f) := by
  induction count generalizing f with
  | zero => exact ⟨[c], rfl, .cons h (.nil _)⟩
  | succ count ih =>
    rw [stateAfter_succ] at h
    cases hp : f.next.pull with
    | stop stop =>
      have hover := isOver_of_stop hp
      rw [hover.stateAfter, hover] at h
      cases h
    | item d =>
      obtain ⟨t, hlength, hserves⟩ := ih h
      exact ⟨d :: t, congrArg Nat.succ hlength, .cons hp (by rw [stateAfter_succ]; exact hserves)⟩

end Feed

/-! ### Streams -/

/-- What is given out because of a character ends before it, or with it if nothing is held after that. -/
theorem Held.offset_of_meet {held now : Option Held} {out : Held} {c : Char} {l : SourceLocation}
    (h : ∀ x ∈ held, x.Fits l) (hm : meet held c l = (now, some out)) :
    out.span.inner.stop.offset + (if now.isSome then 1 else 0) = l.inner.offset + 1 := by
  have hheld : ∀ x ∈ held, x.span.inner.stop.offset + 1 = l.inner.offset + 1 := fun x hx => by rw [(h x hx).stop]
  cases hc : Token.ofChar? c with
  | some t =>
    cases held with
    | none =>
      rw [meet_mark_none hc] at hm
      cases hm
      exact (Int.add_zero _).trans (Location.offset_after l.inner [c])
    | some x =>
      rw [meet_mark_some hc] at hm
      cases hm
      exact hheld _ rfl
  | none =>
    rcases held with _ | ⟨u, span⟩ | ⟨builder, span⟩
    · rw [meet_word_none hc] at hm
      cases hm
    · rw [meet_word_token hc] at hm
      cases hm
      exact hheld _ rfl
    · rw [meet_word_word hc] at hm
      cases hm

namespace TokenStream

variable {s : TokenStream}

/-- The place of a stream moves over what the characters have shown. -/
theorem place_next (s : TokenStream) :
    s.next.next.chars.place = SourceLocation.walk s.chars.place (s.drawn.filterMap Pull.item?) := by
  rcases drawn_cases s with ⟨hdrawn, hchars, -⟩ | hdraws
  · rw [hdrawn, hchars]
    rfl
  · generalize s.drawn = shown at hdraws
    generalize s.next = r at hdraws
    cases hdraws with
    | @release t f out held hserves hmeet => rw [items_of_shown]
    | @halt t f held stop hserves hstop hmeet =>
      rw [chars_halt, List.filterMap_append, items_of_shown]
      show _ = SourceLocation.walk s.chars.place (t ++ [])
      rw [List.append_nil]

theorem place_stateAfter (count : Nat) (s : TokenStream) :
    (stateAfter next count s).chars.place =
      SourceLocation.walk s.chars.place ((drawnAfter count s).filterMap Pull.item?) := by
  induction count generalizing s with
  | zero => rfl
  | succ count ih => rw [stateAfter_succ, ih, place_next, drawnAfter, List.filterMap_append, SourceLocation.walk_append]

/-- A pull that gives something out without coming to the end of the characters stands after it, or one character
    further if something is held then. -/
theorem offset_of_advance (hs : s.Live) {i : Item} (hpull : s.advance.pull = .item i)
    (hdraw : ∀ stop, .stop stop ∉ s.draw) :
    i.span.inner.stop.offset + (if s.advance.next.held.isSome then 1 else 0) =
      s.advance.next.chars.place.inner.offset := by
  -- By induction on the text that is still to come: the pull stops at the character that makes it give something out.
  generalize ht : s.chars.feed.delivery.text = t
  induction t generalizing s with
  | nil =>
    cases hp : s.chars.feed.next.pull with
    | item c =>
      have hd := Feed.delivery_next_item hp
      rw [hd] at ht
      cases ht
    | stop stop =>
      have hstop : s.chars.next.pull = .stop stop := by rw [CharStream.next_of_stop hp]
      rw [draw_of_stop hstop] at hdraw
      exact absurd (List.mem_singleton_self _) (hdraw stop)
  | cons c t ih =>
    obtain ⟨hp, hrest⟩ := Feed.next_of_delivery_cons (f := s.chars.feed) (c := c) (t := t) (by rw [← ht])
    have hchars := CharStream.next_of_item hp
    have hitem : s.chars.next.pull = .item (c, s.chars.place) := by rw [hchars]
    obtain ⟨hfits, hwhole⟩ := Held.fits_meet (c := c) hs.fits
    cases hm : Held.meet s.held c s.chars.place with
    | mk held out =>
      rw [hm] at hfits hwhole
      cases out with
      | some out =>
        rw [advance_of_release hitem hm, hchars] at hpull ⊢
        rw [Held.release_of_whole (hwhole out rfl)] at hpull
        cases hpull
        have hoffset := Held.offset_of_meet hs.fits hm
        rw [← Held.span_item] at hoffset
        exact hoffset.trans (Location.offset_after _ _).symm
      | none =>
        rw [draw_of_hold hitem hm] at hdraw
        rw [advance_of_hold hitem hm, hchars] at hpull ⊢
        rw [hchars] at hdraw
        exact ih ⟨hs.owed, hs.unended, hfits⟩ hpull (fun stop hmem => hdraw stop (List.mem_cons_of_mem _ hmem))
          (by rw [hrest])

/-- A pull that gives an item and does not come to the end of the characters leaves a live stream, and no pull before
    it came to that. -/
theorem live_of_item {o : Origin} (hs : s.Fresh o) {count : Nat} {i : Item}
    (hpull : (stateAfter next count s).next.pull = .item i)
    (hdrawn : ∀ stop, .stop stop ∉ (stateAfter next count s).drawn) :
    (stateAfter next count s).Live ∧ (stateAfter next (count + 1) s).Live ∧
      ∀ stop, .stop stop ∉ drawnAfter (count + 1) s := by
  cases standing_stateAfter hs count with
  | ended hended _ _ =>
    cases howed : (stateAfter next count s).owed with
    | none =>
      rw [next_of_ended howed hended] at hpull
      cases hpull
    | some error =>
      rw [next_of_owed howed] at hpull
      cases hpull
  | running hlive _ =>
    refine ⟨hlive, ?_, fun stop hmem => ?_⟩
    · rw [stateAfter_add]
      rcases next_of_running hlive with ⟨hlive', -⟩ | ⟨-, -, hmet, -⟩
      · exact hlive'
      · rcases hmet with hmet | ⟨error, hmet⟩
        · exact absurd hmet (hdrawn _)
        · exact absurd hmet (hdrawn _)
    · rw [drawnAfter_add, drawnAfter_one] at hmem
      rcases List.mem_append.mp hmem with hmem | hmem
      · -- The characters were over, so that the pull has met their end once more.
        have hover : (stateAfter next count s).chars.feed.next.pull = .stop .finished := by
          rw [(shows_drawnAfter count s).isOver hmem]
        have hstop : (stateAfter next count s).chars.next.pull = .stop .finished := by
          rw [CharStream.next_of_stop hover]
        rw [drawn_of_live hlive, draw_of_stop hstop] at hdrawn
        exact hdrawn _ (List.mem_singleton_self _)
      · exact hdrawn stop hmem

/-- What has been taken is what has been given out, and one character more if something is held. -/
theorem length_drawnAfter_of_item {o : Origin} (hs : s.Fresh o) {count : Nat} {i : Item}
    (hpull : (stateAfter next count s).next.pull = .item i)
    (hdrawn : ∀ stop, .stop stop ∉ (stateAfter next count s).drawn) :
    let after := stateAfter next (count + 1) s
    let taken := (drawnAfter (count + 1) s).filterMap Pull.item?
    after.state = .idle ∧ taken.length = i.span.inner.stop.offset ∨
      after.state = .buffered ∧ taken.length = i.span.inner.stop.offset + 1 := by
  intro after taken
  obtain ⟨hlive, hlive', -⟩ := live_of_item hs hpull hdrawn
  rw [next_of_live hlive] at hpull
  rw [drawn_of_live hlive] at hdrawn
  have hafter : (stateAfter next count s).advance.next = after := by
    rw [← next_of_live hlive, ← stateAfter_one, ← stateAfter_add]
  have hoffset := offset_of_advance hlive hpull hdrawn
  have hplace : after.chars.place.inner.offset = taken.length := by
    rw [place_stateAfter, hs.place]
    exact (Location.offset_walk .zero taken).trans (Int.zero_add _)
  rw [hafter, hplace] at hoffset
  rw [state_of_live hlive', ← hoffset]
  cases after.held.isSome with
  | false => exact Or.inl ⟨rfl, Int.add_zero _⟩
  | true => exact Or.inr ⟨rfl, rfl⟩

/-- No more reads are made than it takes: none by opening, by the characters the least number that has given as many,
    and by a stream the least for what it has given out and, if it holds something, one character more. This is so
    with any codecs that give no lone surrogates. -/
theorem isLeast_reads {codecs : Codecs} {name : String} {input : ReaderInput} {encoding errors : Option String}
    {making opening : Config} {s : TokenStream} {rest : Source} {event : LogEvent}
    (h : ofSource (Source.ofReader codecs name input encoding errors making) opening = .ok (s, rest, event)) :
    let source := Source.ofReader codecs name input encoding errors making
    let within := (Source.reader codecs name input encoding errors making).within
    (source.take? = some (s.chars.feed, rest) ∧ CharStream.ofSource source = .ok (s.chars, rest) ∧
      s.chars.feed.reads? = some 0) ∧
    (∀ count c, (stateAfter Feed.next count s.chars.feed).next.pull = .item c →
      ∃ reads, (stateAfter Feed.next (count + 1) s.chars.feed).reads? = some reads ∧
        IsLeast {n | count + 1 ≤ (within n).length} reads) ∧
    ∀ count i, (stateAfter next count s).next.pull = .item i →
      (∀ stop, .stop stop ∉ (stateAfter next count s).drawn) →
      let after := stateAfter next (count + 1) s
      let taken := (drawnAfter (count + 1) s).filterMap Pull.item?
      s.chars.feed.Serves taken after.chars.feed ∧
        (after.state = .idle ∧ taken.length = i.span.inner.stop.offset ∨
          after.state = .buffered ∧ taken.length = i.span.inner.stop.offset + 1) ∧
        ∃ reads, after.chars.feed.reads? = some reads ∧ IsLeast {n | taken.length ≤ (within n).length} reads := by
  obtain ⟨hfresh, hunread, -⟩ := ofSource_eq_ok h
  have hfeed := Source.feed_of_opened h
  have hcosts : ∀ {t g}, s.chars.feed.Serves t g → ∃ reads, g.reads? = some reads ∧
      IsLeast {n | t.length ≤ ((Source.reader codecs name input encoding errors making).within n).length} reads := by
    intro t g hserves
    obtain ⟨made, hreads, hcosts⟩ := hserves.costs
    rw [hfeed] at hreads hcosts
    refine ⟨made, hreads.trans ?_, hcosts.isLeast⟩
    exact congrArg some (Nat.zero_add made)
  refine ⟨?_, fun count c hpull => ?_, fun count i hpull hdrawn => ?_⟩
  · cases h
    exact ⟨rfl, rfl, rfl⟩
  · obtain ⟨t, hlength, hserves⟩ := Feed.serves_of_item hpull
    have hleast := hcosts hserves
    rwa [hlength] at hleast
  · obtain ⟨-, -, hnone⟩ := live_of_item hfresh hpull hdrawn
    have hserves := (shows_drawnAfter (count + 1) s).serves hnone
    exact ⟨hserves, length_drawnAfter_of_item hfresh hpull hdrawn, hcosts hserves⟩

/-- A character that is cut through costs two reads, and the mark after it, which is held, no further one. -/
theorem isLeast_reads_of_cut_character :
    let input := ReaderInput.script [.octets [0xc3], .octets [0xa9, 0x2d], .octets [0x2d]]
    let within := (Source.reader .standard "notes" input none none {}).within
    ∃ s rest event i, ofSource (Source.ofReader .standard "notes" input none none {}) {} = .ok (s, rest, event) ∧
      s.chars.feed.reads? = some 0 ∧ s.chars.feed.next.pull = .item 'é' ∧
      (∃ reads, s.chars.feed.next.next.reads? = some reads ∧ IsLeast {n | 1 ≤ (within n).length} reads) ∧
      s.next.pull = .item i ∧ i.token.value = ['é'] ∧ s.drawn = [.item 'é', .item '-'] ∧
      s.next.next.state = .buffered ∧
      ∃ reads, s.next.next.chars.feed.reads? = some reads ∧ IsLeast {n | 2 ≤ (within n).length} reads := by
  intro input within
  let feed := Feed.reader (Source.reader .standard "notes" input none none {})
  let s : TokenStream := { chars := ⟨Origin.start ⟨"notes", none⟩, feed⟩, flushOnError := true }
  let word := Held.beginWord 'é' s.chars.place
  have hlive : s.Live := ⟨rfl, rfl, by simp [s]⟩
  have hfirst : feed.next.pull = .item 'é' := by decide
  have hsecond : feed.next.next.next.pull = .item '-' := by decide
  have hchars := CharStream.next_of_item (s := s.chars) hfirst
  have hchars' := CharStream.next_of_item (s := s.chars.next.next) (by rw [hchars]; exact hsecond)
  have hword : Held.meet s.held 'é' s.chars.place = (some word, none) := Held.meet_word_none (by decide)
  have hmark : Held.meet (some word) '-' s.chars.next.next.place =
      (some (.token ⟨.hyphen, ['-']⟩ (SourceLocation.cellSpan s.chars.next.next.place ['-'])), some word) :=
    Held.meet_mark_some (by decide) word
  have hdrawn : s.drawn = [.item 'é', .item '-'] := by
    rw [drawn_of_live hlive, draw_of_hold (by rw [hchars]) hword, draw_of_release (by rw [hchars']) hmark]
  have hpull : s.next.pull = .item word.item := by
    rw [next_of_live hlive, advance_of_hold (by rw [hchars]) hword, advance_of_release (by rw [hchars']) hmark]
    exact Held.release_of_whole Held.fits_beginWord.whole
  have hopened : ofSource (Source.ofReader .standard "notes" input none none {}) {} = .ok (s, _, _) := rfl
  obtain ⟨⟨-, -, hnone⟩, hfeed, hstream⟩ := isLeast_reads hopened
  have hitems : ∀ stop, .stop stop ∉ s.drawn := by
    rw [hdrawn]
    simp
  obtain ⟨-, hstate, hleast⟩ := hstream 0 word.item hpull hitems
  rw [drawnAfter_one, hdrawn] at hstate hleast
  refine ⟨s, _, _, word.item, rfl, hnone, hfirst, hfeed 0 'é' hfirst, hpull, rfl, hdrawn, ?_, hleast⟩
  rcases hstate with ⟨-, hlength⟩ | ⟨hstate, -⟩
  · cases hlength
  · exact hstate

end TokenStream

end Lexeme
