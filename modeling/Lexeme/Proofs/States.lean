import Lexeme.Proofs.Partition

/-! # From state to state

A stream is idle until a word begins, holds something from then on, and is exhausted once the input has ended
or failed and nothing is owed. A pull takes it forward in this order (`Standing.next`); that a failure passes
through it makes no difference. What a pull has met of the characters is read off what they show to it. -/

namespace Lexeme

namespace StreamState

def rank : StreamState → Nat
  | idle => 0
  | buffered => 1
  | exhausted => 2

/-- The order in which a stream goes through its states. -/
instance : LE StreamState where
  le a b := a.rank ≤ b.rank

instance (a b : StreamState) : Decidable (a ≤ b) :=
  inferInstanceAs (Decidable (a.rank ≤ b.rank))

theorem le_refl (a : StreamState) : a ≤ a :=
  Nat.le_refl a.rank

theorem le_trans {a b c : StreamState} (hab : a ≤ b) (hbc : b ≤ c) : a ≤ c :=
  Nat.le_trans (m := b.rank) hab hbc

end StreamState

namespace TokenStream

/-! ### What the characters show -/

/-- What the characters show to a pull, which does not go to them when an error is owed or the input is over. -/
def drawn (s : TokenStream) : List (Pull Char) :=
  if s.owed.isSome ∨ s.exhausted then [] else s.draw

/-- What the characters show to a number of pulls. -/
def drawnAfter : Nat → TokenStream → List (Pull Char)
  | 0, _ => []
  | count + 1, s => s.drawn ++ drawnAfter count s.next.next

section
variable {s : TokenStream} {shown : List (Pull Char)}

theorem drawnAfter_add (m n : Nat) (s : TokenStream) :
    drawnAfter (m + n) s = drawnAfter m s ++ drawnAfter n (stateAfter next m s) := by
  induction m generalizing s with
  | zero => rw [Nat.zero_add]; rfl
  | succ m ih => rw [Nat.succ_add, drawnAfter, ih, drawnAfter, stateAfter_succ, List.append_assoc]

theorem drawnAfter_one (s : TokenStream) : drawnAfter 1 s = s.drawn :=
  List.append_nil _

theorem drawn_of_live (h : s.Live) : s.drawn = s.draw := by
  simp [drawn, h.owed, h.unended]

theorem drawn_of_ended (h : s.exhausted = true) : s.drawn = [] := by
  simp [drawn, h]

/-! ### One pull -/

theorem state_of_live (h : s.Live) : s.state = if s.held.isSome then .buffered else .idle := by
  simp [state, h.owed, h.unended]

theorem state_of_ended (h : s.exhausted = true) : s.state = if s.owed.isSome then .buffered else .exhausted := by
  simp [state, h]

theorem ended_halt {stop : Stop} (h : ∀ failure, stop ≠ .interrupted failure) (s : TokenStream)
    (log : List LogEvent) (chars : CharStream) :
    (s.halt stop log chars).next.exhausted = true ∧ (s.halt stop log chars).next.held = none := by
  cases stop with
  | finished => cases hheld : s.held <;> simp [halt, hheld]
  | failed error => cases hheld : s.held <;> cases hflush : s.flushOnError <;> simp [halt, hheld, hflush]
  | interrupted failure => exact absurd rfl (h failure)

/-- A stream that halts gives out what it holds or shows why it halts. -/
theorem halt_eq_stop (hw : ∀ x ∈ s.held, x.IsWhole) {stop reason : Stop} {log : List LogEvent} {chars : CharStream}
    (h : (s.halt stop log chars).pull = .stop reason) : reason = stop := by
  cases stop with
  | interrupted failure =>
    cases h
    rfl
  | finished =>
    cases hheld : s.held with
    | none =>
      rw [halt_finished_of_none hheld] at h
      cases h
      rfl
    | some x =>
      rw [halt_finished_of_some hheld (hw x hheld)] at h
      cases h
  | failed error =>
    by_cases hshown : s.held = none ∨ s.flushOnError = false
    · rw [halt_failed_of_shown hshown] at h
      cases h
      rfl
    · obtain ⟨hne, hflush⟩ := not_or.mp hshown
      obtain ⟨x, hheld⟩ := Option.ne_none_iff_exists'.mp hne
      rw [halt_failed_of_owed hheld (hw x hheld) (eq_true_of_ne_false hflush)] at h
      cases h

/-- An end that is shown leaves nothing behind, and shows that nothing was held. -/
theorem halt_eq_finished (hw : ∀ x ∈ s.held, x.IsWhole) (howed : s.owed = none) {stop : Stop} {log : List LogEvent}
    {chars : CharStream} (h : (s.halt stop log chars).pull = .stop .finished) :
    s.held = none ∧ (s.halt stop log chars).next.owed = none := by
  obtain rfl := halt_eq_stop hw h
  cases hheld : s.held with
  | none =>
    rw [halt_finished_of_none hheld]
    exact ⟨rfl, howed⟩
  | some x =>
    rw [halt_finished_of_some hheld (hw x hheld)] at h
    cases h

theorem items_of_shown (t : Text) : (t.map Pull.item).filterMap Pull.item? = t := by
  rw [List.filterMap_map]
  exact List.filterMap_some

/-- A live stream stays live and holds something as soon as a word has begun, or it has met an end or a read
    error. It shows the end only if it held nothing. -/
theorem next_of_running (h : s.Live) :
    (s.next.next.Live ∧ s.next.pull ≠ .stop .finished ∧
      s.next.next.held.isSome = (s.held.isSome || (s.drawn.filterMap Pull.item?).any Token.isWordChar)) ∨
    (s.next.next.exhausted = true ∧ s.next.next.held = none ∧
      (.stop .finished ∈ s.drawn ∨ ∃ error, .stop (.failed error) ∈ s.drawn) ∧
      (s.next.pull = .stop .finished → s.held = none ∧ s.next.next.owed = none)) := by
  have hdraws := draws s
  rw [drawn_of_live h, next_of_live h]
  generalize s.draw = shown at hdraws
  generalize s.advance = r at hdraws
  cases hdraws with
  | @release t f out held hserves hmeet =>
    obtain ⟨hfits, houts⟩ := Held.fits_meetAll h.fits t
    have hsome := Held.isSome_meetAll s.held s.chars.place t
    rw [hmeet] at hfits houts hsome
    refine Or.inl ⟨⟨h.owed, h.unended, hfits⟩, ?_, ?_⟩
    · rw [Held.release_of_whole (houts out List.mem_cons_self)]
      exact fun he => by cases he
    · rw [items_of_shown]
      exact hsome
  | @halt t f held stop hserves hstop hmeet =>
    obtain ⟨hfits, -⟩ := Held.fits_meetAll h.fits t
    have hsome := Held.isSome_meetAll s.held s.chars.place t
    rw [hmeet] at hfits hsome
    have hitems : (t.map Pull.item ++ [Pull.stop stop]).filterMap Pull.item? = t := by
      rw [List.filterMap_append, items_of_shown]
      exact List.append_nil t
    -- A failure that passes through leaves the stream as it is; all else ends it.
    by_cases hpasses : ∃ failure, stop = .interrupted failure
    · obtain ⟨failure, rfl⟩ := hpasses
      refine Or.inl ⟨⟨h.owed, h.unended, hfits⟩, ?_, ?_⟩
      · exact fun he => by cases he
      · rw [hitems]
        exact hsome
    · have hends : ∀ failure, stop ≠ .interrupted failure := fun failure he => hpasses ⟨failure, he⟩
      obtain ⟨hended, hheld⟩ := ended_halt hends { s with held } f.next.log
        ⟨SourceLocation.walk s.chars.place t, f.next.next⟩
      refine Or.inr ⟨hended, hheld, ?_, fun he => ?_⟩
      · cases stop with
        | finished => exact Or.inl (List.mem_append_right _ (List.mem_singleton_self _))
        | failed error => exact Or.inr ⟨error, List.mem_append_right _ (List.mem_singleton_self _)⟩
        | interrupted failure => exact absurd rfl (hends failure)
      · obtain ⟨rfl, howed⟩ := halt_eq_finished (s := { s with held }) (fun x hx => (hfits x hx).whole) h.owed he
        refine ⟨?_, howed⟩
        cases hheld : s.held with
        | none => rfl
        | some x =>
          rw [hheld] at hsome
          cases hsome

/-- A live stream shows no reason for which the characters have not stopped. -/
theorem stop_mem_drawn (h : s.Live) {stop : Stop} (hpull : s.next.pull = .stop stop) : .stop stop ∈ s.drawn := by
  have hdraws := draws s
  rw [next_of_live h] at hpull
  rw [drawn_of_live h]
  generalize s.draw = shown at hdraws
  generalize s.advance = r at hdraws hpull
  cases hdraws with
  | @release t f out held hserves hmeet =>
    have houts := (Held.fits_meetAll h.fits t).2
    rw [hmeet] at houts
    rw [Held.release_of_whole (houts out List.mem_cons_self)] at hpull
    cases hpull
  | @halt t f held reason hserves hstop hmeet =>
    have hfits := (Held.fits_meetAll h.fits t).1
    rw [hmeet] at hfits
    obtain rfl := halt_eq_stop (s := { s with held }) (fun x hx => (hfits x hx).whole) hpull
    exact List.mem_append_right _ (List.mem_singleton_self _)

/-! ### Every number of pulls -/

/-- How a stream stands after what the characters have shown to it: it goes on and holds something if a word has
    begun, or it has met an end or a read error. -/
inductive Standing (s : TokenStream) (shown : List (Pull Char)) : Prop
  | running : s.Live → s.held.isSome = (shown.filterMap Pull.item?).any Token.isWordChar → Standing s shown
  | ended : s.exhausted = true → s.held = none →
      (.stop .finished ∈ shown ∨ ∃ error, .stop (.failed error) ∈ shown) → Standing s shown

theorem Standing.next (h : Standing s shown) : Standing s.next.next (shown ++ s.drawn) := by
  cases h with
  | running hlive hsome =>
    rcases next_of_running hlive with ⟨hlive', -, hsome'⟩ | ⟨hended, hheld, hmet, -⟩
    · refine .running hlive' ?_
      rw [hsome', hsome, List.filterMap_append, List.any_append]
    · refine .ended hended hheld ?_
      rcases hmet with hmet | ⟨error, hmet⟩
      · exact Or.inl (List.mem_append_right _ hmet)
      · exact Or.inr ⟨error, List.mem_append_right _ hmet⟩
  | ended hended hheld hmet =>
    rw [drawn_of_ended hended, List.append_nil]
    cases howed : s.owed with
    | none =>
      rw [next_of_ended howed hended]
      exact .ended hended hheld hmet
    | some error =>
      rw [next_of_owed howed]
      exact .ended hended hheld hmet

theorem Standing.state_le (h : Standing s shown) : s.state ≤ s.next.next.state := by
  cases h with
  | running hlive hsome =>
    rcases next_of_running hlive with ⟨hlive', -, hsome'⟩ | ⟨hended, -, -, -⟩
    · rw [state_of_live hlive, state_of_live hlive', hsome']
      cases s.held.isSome <;> cases (s.drawn.filterMap Pull.item?).any Token.isWordChar <;> decide
    · rw [state_of_live hlive, state_of_ended hended]
      cases s.held.isSome <;> cases s.next.next.owed.isSome <;> decide
  | ended hended hheld hmet =>
    cases howed : s.owed with
    | none =>
      rw [next_of_ended howed hended]
      exact StreamState.le_refl s.state
    | some error =>
      have hafter : state { s with owed := none } = .exhausted := state_of_ended (s := { s with owed := none }) hended
      rw [next_of_owed howed, state_of_ended hended, howed]
      show StreamState.buffered ≤ state { s with owed := none }
      rw [hafter]
      decide

theorem Standing.next_of_exhausted (h : Standing s shown) (hs : s.state = .exhausted) :
    s.next = ⟨.stop .finished, [], s⟩ := by
  cases h with
  | running hlive hsome =>
    rw [state_of_live hlive] at hs
    split at hs <;> cases hs
  | ended hended hheld hmet =>
    rw [state_of_ended hended] at hs
    cases howed : s.owed with
    | none => exact next_of_ended howed hended
    | some error =>
      rw [howed] at hs
      cases hs

theorem Standing.ne_finished_of_buffered (h : Standing s shown) (hs : s.state = .buffered) :
    s.next.pull ≠ .stop .finished := by
  cases h with
  | running hlive hsome =>
    rcases next_of_running hlive with ⟨-, hpull, -⟩ | ⟨-, -, -, hnone⟩
    · exact hpull
    · intro hpull
      rw [state_of_live hlive, (hnone hpull).1] at hs
      cases hs
  | ended hended hheld hmet =>
    cases howed : s.owed with
    | none =>
      rw [state_of_ended hended, howed] at hs
      cases hs
    | some error =>
      rw [next_of_owed howed]
      exact fun hpull => by cases hpull

theorem Standing.exhausted_of_finished (h : Standing s shown) (hpull : s.next.pull = .stop .finished) :
    s.next.next.state = .exhausted := by
  cases h with
  | running hlive hsome =>
    rcases next_of_running hlive with ⟨-, hne, -⟩ | ⟨hended, -, -, hnone⟩
    · exact absurd hpull hne
    · rw [state_of_ended hended, (hnone hpull).2]
      rfl
  | ended hended hheld hmet =>
    cases howed : s.owed with
    | none =>
      rw [next_of_ended howed hended, state_of_ended hended, howed]
      rfl
    | some error =>
      rw [next_of_owed howed] at hpull
      cases hpull

/-- A pull leaves the characters alone and reports nothing, or goes to them. -/
theorem drawn_cases (s : TokenStream) :
    (s.drawn = [] ∧ s.next.next.chars = s.chars ∧ s.next.log = []) ∨ Draws s s.drawn s.next := by
  cases howed : s.owed with
  | some error =>
    rw [next_of_owed howed]
    exact Or.inl ⟨if_pos (by simp [howed]), rfl, rfl⟩
  | none =>
    cases hended : s.exhausted with
    | true =>
      rw [next_of_ended howed hended]
      exact Or.inl ⟨drawn_of_ended hended, rfl, rfl⟩
    | false =>
      refine Or.inr ?_
      rw [drawn, if_neg (by simp [howed, hended]), next, howed]
      simp only [hended, Bool.false_eq_true, if_false]
      exact draws s

theorem shows_drawn (s : TokenStream) : s.chars.feed.Shows s.drawn s.next.next.chars.feed := by
  rcases drawn_cases s with ⟨hdrawn, hchars, -⟩ | hdraws
  · rw [hdrawn, hchars]
    exact .refl _
  · exact hdraws.shows

theorem shows_drawnAfter (count : Nat) (s : TokenStream) :
    s.chars.feed.Shows (drawnAfter count s) (stateAfter TokenStream.next count s).chars.feed := by
  induction count generalizing s with
  | zero => exact .refl _
  | succ count ih =>
    rw [stateAfter_succ]
    exact (shows_drawn s).trans (ih s.next.next)

theorem standing_stateAfter {o : Origin} (hs : s.Fresh o) (count : Nat) :
    Standing (stateAfter TokenStream.next count s) (drawnAfter count s) := by
  -- Each pull is added at the end, where it is known how the stream stands.
  induction count with
  | zero => exact .running hs.live (by rw [drawnAfter, stateAfter]; simp [hs.held, pullWith, Reply.lastState])
  | succ count ih =>
    rw [stateAfter_add, drawnAfter_add, drawnAfter_one]
    exact ih.next

end

/-- The states of a stream, whatever number of pulls is made: it goes forward only, stays exhausted and goes to
    its source no more, shows the end from there and never while it is buffered, and until an end or a read error
    is met it is buffered exactly when a word has begun. -/
structure Orderly (opened : TokenStream) : Prop where
  forward : ∀ m n, m ≤ n → (stateAfter next m opened).state ≤ (stateAfter next n opened).state
  exhausted : ∀ count, (stateAfter next count opened).state = .exhausted →
    (stateAfter next count opened).next = ⟨.stop .finished, [], stateAfter next count opened⟩
  buffered : ∀ count, (stateAfter next count opened).state = .buffered →
    (stateAfter next count opened).next.pull ≠ .stop .finished
  finished : ∀ count, (stateAfter next count opened).next.pull = .stop .finished →
    (stateAfter next (count + 1) opened).state = .exhausted
  shown : ∀ count, opened.chars.feed.Shows (drawnAfter count opened) (stateAfter next count opened).chars.feed
  worded : ∀ count, .stop .finished ∉ drawnAfter count opened →
    (∀ error, .stop (.failed error) ∉ drawnAfter count opened) →
    (stateAfter next count opened).state =
      if ((drawnAfter count opened).filterMap Pull.item?).any Token.isWordChar then .buffered else .idle

theorem orderly_of_fresh {s : TokenStream} {o : Origin} (hs : s.Fresh o) : Orderly s where
  forward m n hle := by
    induction hle with
    | refl => exact StreamState.le_refl _
    | @step n _ ih =>
      have hstep := (standing_stateAfter hs n).state_le
      rw [← stateAfter_one, ← stateAfter_add] at hstep
      exact StreamState.le_trans ih hstep
  exhausted count := (standing_stateAfter hs count).next_of_exhausted
  buffered count := (standing_stateAfter hs count).ne_finished_of_buffered
  finished count hpull := by
    rw [stateAfter_add]
    exact (standing_stateAfter hs count).exhausted_of_finished hpull
  shown count := shows_drawnAfter count s
  worded count hend herror := by
    cases standing_stateAfter hs count with
    | running hlive hsome => rw [state_of_live hlive, hsome]
    | ended hended hheld hmet =>
      rcases hmet with hmet | ⟨error, hmet⟩
      · exact absurd hmet hend
      · exact absurd hmet (herror error)

theorem orderly {source rest : Source} {config : Config} {opened : TokenStream} {event : LogEvent}
    (h : ofSource source config = .ok (opened, rest, event)) :
    source.unread = some opened.chars.feed ∧ opened.state = .idle ∧ Orderly opened := by
  obtain ⟨hfresh, hunread, -⟩ := ofSource_eq_ok h
  refine ⟨hunread, ?_, orderly_of_fresh hfresh⟩
  rw [state_of_live hfresh.live, hfresh.held]
  rfl

/-- A failure that is none of reading passes through in the middle of a word, which is given out afterwards. -/
theorem orderly_of_broken_word :
    let source := Source.ofReader .standard "notes" (.script [.text ['a'], .failure .runtime "gone"]) none none {}
    ∃ opened rest event, ofSource source {} = .ok (opened, rest, event) ∧ source.unread = some opened.chars.feed ∧
      opened.state = .idle ∧ Orderly opened :=
  ⟨_, _, _, rfl, orderly rfl⟩

end TokenStream
end Lexeme
