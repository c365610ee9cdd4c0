import Lexeme.Proofs.Failures
import Lexeme.Proofs.Partition

/-! # Nothing is lost on the way

At every moment, what a stream has given out and what it holds make up the characters that it has taken, and
lie in them one after another. Only a read error can make it drop a token, the one that is held when the error
strikes, and only if the stream was told so. One pull preserves this (`Account.next`), whatever it comes to. -/

namespace Lexeme

namespace Item

end Item

namespace TokenStream

/-- How a run stands that has given items and taken a text: it goes on with what is held, or it has ended and
    holds nothing, so that a token may be lost. -/
inductive Stands (o : Origin) (s : TokenStream) (given : List Item) (taken : Text) : Option Held → Prop
  | running : s.owed = none → s.exhausted = false → given = (Held.meetAll none o.start taken).1.map Held.item →
      s.held = (Held.meetAll none o.start taken).2 → Stands o s given taken none
  | ended {lost : Option Held} : s.exhausted = true → s.held = none →
      given ++ lost.toList.map Held.item = Item.ofText o taken → Stands o s given taken lost

/-- The account of a run that started from a feed: what it has taken, and what it has dropped. -/
structure Account (o : Origin) (f : Feed) (s : TokenStream) (pulls : List (Pull Item)) (taken : Text)
    (lost : Option Held) : Prop where
  feed : f.Yields taken s.chars.feed
  place : s.chars.place = SourceLocation.walk o.start taken
  stands : Stands o s (pulls.filterMap Pull.item?) taken lost
  dropped : ∀ x ∈ lost, (Held.meetAll none o.start taken).2 = some x ∧ s.flushOnError = false ∧
    ∃ error, Pull.stop (.failed error) ∈ pulls
  worded : Pull.stop (.interrupted .emptyWord) ∉ pulls

section
variable {o : Origin} {f g : Feed} {s : TokenStream} {pulls : List (Pull Item)} {taken : Text} {lost : Option Held}

theorem fits_of_taken (o : Origin) (t : Text) :
    ∀ x ∈ (Held.meetAll none o.start t).2, x.Fits (SourceLocation.walk o.start t) := by
  have hnone : ∀ x ∈ (none : Option Held), x.Fits o.start := by simp
  exact (Held.fits_meetAll hnone t).1

theorem items_append (pulls : List (Pull Item)) (p : Pull Item) :
    (pulls ++ [p]).filterMap Pull.item? = pulls.filterMap Pull.item? ++ p.item?.toList := by
  rw [List.filterMap_append, List.filterMap_cons]
  cases p.item? <;> rfl

theorem worded_append {p : Pull Item} (h : Pull.stop (.interrupted .emptyWord) ∉ pulls)
    (hp : p ≠ .stop (.interrupted .emptyWord)) : Pull.stop (.interrupted .emptyWord) ∉ pulls ++ [p] := by
  intro hmem
  rcases List.mem_append.mp hmem with hmem | hmem
  · exact h hmem
  · exact hp (List.mem_singleton.mp hmem).symm

theorem Account.next_of_ended (h : Account o f s pulls taken lost) (hended : s.exhausted = true)
    (hheld : s.held = none)
    (hitems : pulls.filterMap Pull.item? ++ lost.toList.map Held.item = Item.ofText o taken) :
    Account o f s.next.next (pulls ++ [s.next.pull]) taken lost := by
  have hstands : ∀ stop, (pulls ++ [Pull.stop stop]).filterMap Pull.item? ++ lost.toList.map Held.item =
      Item.ofText o taken := by
    intro stop
    rw [items_append, ← hitems]
    exact congrArg (· ++ _) (List.append_nil _)
  have hdropped : ∀ p, ∀ x ∈ lost, (Held.meetAll none o.start taken).2 = some x ∧ s.flushOnError = false ∧
      ∃ error, Pull.stop (.failed error) ∈ pulls ++ [p] := by
    intro p x hx
    obtain ⟨hlost, hflush, error, hmem⟩ := h.dropped x hx
    exact ⟨hlost, hflush, error, List.mem_append_left _ hmem⟩
  cases howed : s.owed with
  | some error =>
    rw [next_of_owed howed]
    exact ⟨h.feed, h.place, .ended hended hheld (hstands _), hdropped _,
      worded_append h.worded fun he => by cases he⟩
  | none =>
    rw [TokenStream.next_of_ended howed hended]
    exact ⟨h.feed, h.place, .ended hended hheld (hstands _), hdropped _,
      worded_append h.worded fun he => by cases he⟩

/-- A pull that ends a run gives out what is held, or drops it and shows a read error. -/
theorem Account.close {u : TokenStream} {p : Pull Item} (h : Account o f s pulls taken none)
    (hitems : pulls.filterMap Pull.item? ++ s.held.toList.map Held.item = Item.ofText o taken)
    (hfeed : s.chars.feed.Yields [] u.chars.feed) (hplace : u.chars.place = s.chars.place)
    (hended : u.exhausted = true) (hheld : u.held = none)
    (hout : p.item?.toList ++ lost.toList.map Held.item = s.held.toList.map Held.item)
    (hdropped : ∀ x ∈ lost, (Held.meetAll none o.start taken).2 = some x ∧ u.flushOnError = false ∧
      ∃ error, p = .stop (.failed error))
    (hp : p ≠ .stop (.interrupted .emptyWord)) : Account o f u (pulls ++ [p]) taken lost := by
  refine ⟨?_, hplace.trans h.place, .ended hended hheld ?_, ?_, worded_append h.worded hp⟩
  · have hyields := h.feed.trans hfeed
    rwa [List.append_nil] at hyields
  · rw [items_append, List.append_assoc, hout, hitems]
  · intro x hx
    obtain ⟨hlost, hflush, error, rfl⟩ := hdropped x hx
    exact ⟨hlost, hflush, error, List.mem_append_right _ (List.mem_singleton_self _)⟩

/-- When there are no more characters, what is held is given out, kept or dropped. -/
theorem Account.halt (h : Account o f s pulls taken none) (hs : s.Live)
    (hgiven : pulls.filterMap Pull.item? = (Held.meetAll none o.start taken).1.map Held.item)
    (hheld : s.held = (Held.meetAll none o.start taken).2) {stop : Stop} (log : List LogEvent)
    (hstop : stop ≠ .interrupted .emptyWord) (hfeed : s.chars.feed.Yields [] g) :
    ∃ lost, Account o f (s.halt stop log ⟨s.chars.place, g⟩).next
      (pulls ++ [(s.halt stop log ⟨s.chars.place, g⟩).pull]) taken lost := by
  have hitems : pulls.filterMap Pull.item? ++ s.held.toList.map Held.item = Item.ofText o taken := by
    rw [hgiven, hheld]
    exact given_append_held o taken
  cases stop with
  | interrupted failure =>
    have hyields := h.feed.trans hfeed
    rw [List.append_nil] at hyields
    have hkept : (pulls ++ [Pull.stop (.interrupted failure)]).filterMap Pull.item? =
        (Held.meetAll none o.start taken).1.map Held.item := by
      rw [items_append, hgiven]
      exact List.append_nil _
    refine ⟨none, hyields, h.place, .running hs.owed hs.unended hkept hheld, by simp, worded_append h.worded ?_⟩
    rintro ⟨⟩
    exact hstop rfl
  | finished =>
    refine ⟨none, ?_⟩
    cases hx : s.held with
    | none =>
      rw [halt_finished_of_none hx]
      exact h.close hitems hfeed rfl rfl rfl (by rw [hx]; rfl) (by simp) (by simp)
    | some x =>
      rw [halt_finished_of_some hx (hs.fits x hx).whole]
      exact h.close hitems hfeed rfl rfl rfl (by rw [hx]; rfl) (by simp) (by simp)
  | failed error =>
    cases hflush : s.flushOnError with
    | false =>
      refine ⟨s.held, ?_⟩
      rw [halt_failed_of_shown (Or.inr hflush)]
      exact h.close hitems hfeed rfl rfl rfl rfl (fun x hx => ⟨hheld ▸ hx, hflush, error, rfl⟩) (by simp)
    | true =>
      refine ⟨none, ?_⟩
      cases hx : s.held with
      | none =>
        rw [halt_failed_of_shown (Or.inl hx)]
        exact h.close hitems hfeed rfl rfl rfl (by rw [hx]; rfl) (by simp) (by simp)
      | some x =>
        rw [halt_failed_of_owed hx (hs.fits x hx).whole hflush]
        exact h.close hitems hfeed rfl rfl rfl (by rw [hx]; rfl) (by simp) (by simp)

/-- One pull preserves the account, whatever it comes to. -/
theorem Account.next (h : Account o f s pulls taken lost) :
    ∃ taken lost, Account o f s.next.next (pulls ++ [s.next.pull]) taken lost := by
  cases h.stands with
  | ended hended hheld hitems => exact ⟨taken, lost, h.next_of_ended hended hheld hitems⟩
  | running howed hended hgiven hheld =>
    -- The characters that the pull takes are met after all those before them.
    have hall : ∀ t, Held.meetAll none o.start (taken ++ t) =
        ((Held.meetAll none o.start taken).1 ++ (Held.meetAll s.held s.chars.place t).1,
          (Held.meetAll s.held s.chars.place t).2) := by
      intro t
      rw [Held.meetAll_append, ← hheld, ← h.place]
    have hlive : s.Live := by
      have hfits := fits_of_taken o taken
      rw [← hheld, ← h.place] at hfits
      exact ⟨howed, hended, hfits⟩
    have hplace : ∀ t, SourceLocation.walk s.chars.place t = SourceLocation.walk o.start (taken ++ t) := by
      intro t
      rw [h.place, SourceLocation.walk_append]
    have hnext := advances s
    rw [next_of_live hlive]
    generalize s.advance = r at hnext
    cases hnext with
    | @release t g out held hserves hmeet =>
      have houts := (Held.fits_meetAll hlive.fits t).2
      rw [hmeet] at houts
      have hrelease : out.release = .item out.item := Held.release_of_whole (houts out List.mem_cons_self)
      refine ⟨taken ++ t, none, h.feed.trans hserves.yields, hplace t, .running howed hended ?_ ?_, by simp, ?_⟩
      · rw [items_append, hgiven, hall, hmeet, hrelease, List.map_append]
        rfl
      · rw [hall, hmeet]
      · rw [hrelease]
        exact worded_append h.worded (by simp)
    | @halt t g held stop hserves hstop hmeet =>
      have hheld' : held = (Held.meetAll none o.start (taken ++ t)).2 := by rw [hall, hmeet]
      have hgiven' : pulls.filterMap Pull.item? = (Held.meetAll none o.start (taken ++ t)).1.map Held.item := by
        rw [hgiven, hall, hmeet, List.append_nil]
      have hfits := (Held.fits_meetAll hlive.fits t).1
      rw [hmeet] at hfits
      -- The state in which the characters have been taken and nothing was given out.
      have hu :
          Account o f { s with held, chars := ⟨SourceLocation.walk s.chars.place t, g⟩ } pulls (taken ++ t) none :=
        ⟨h.feed.trans hserves.yields, hplace t, .running howed hended hgiven' hheld', by simp, h.worded⟩
      obtain ⟨lost, hlost⟩ := hu.halt ⟨howed, hended, hfits⟩ hgiven' hheld' g.next.log
        (Feed.ne_emptyWord_of_stop hstop) (Feed.yields_of_stop hstop)
      rw [halt_chars { s with held } ⟨SourceLocation.walk s.chars.place t, g⟩] at hlost
      exact ⟨taken ++ t, lost, hlost⟩

end

end TokenStream
end Lexeme
