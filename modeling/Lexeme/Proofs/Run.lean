import Lexeme.Proofs.Advance

/-! # What a run of a stream gives

The pulls of a stream give out the items of the characters to come, one after another. What they show at the
end hangs on why there are no more characters: an end or a passing failure gives out what is held, a read
error only if the stream was told so. -/

namespace Lexeme.TokenStream

/-- What the pulls show when there are no more characters. -/
def ending (flush : Bool) (held : Option Held) : Stop → List (Pull Item)
  | .finished => held.toList.map fun h => .item h.item
  | .failed error => (if flush then held.toList.map fun h => .item h.item else []) ++ [.stop (.failed error)]
  | .interrupted failure => .stop (.interrupted failure) :: held.toList.map fun h => .item h.item

theorem gives_of_exhausted {s : TokenStream} (howed : s.owed = none) (hended : s.exhausted = true) :
    Gives next s [] := by
  refine gives_nil (P := fun s => s.owed = none ∧ s.exhausted = true) (fun s hs => ?_) ⟨howed, hended⟩
  rw [next_of_ended hs.1 hs.2]
  exact ⟨rfl, hs⟩

theorem gives_of_owed {s : TokenStream} {error : ReadError} (howed : s.owed = some error)
    (hended : s.exhausted = true) : Gives next s [.stop (.failed error)] := by
  refine gives_cons.mpr ⟨by rw [next_of_owed howed], ?_⟩
  rw [next_of_owed howed]
  exact gives_of_exhausted rfl hended

section
variable {s u : TokenStream} {chars : CharStream} {log : List LogEvent}

theorem gives_of_halt_finished (hw : ∀ x ∈ s.held, x.IsWhole) (howed : s.owed = none)
    (hu : u.next = s.halt .finished log chars) : Gives next u (ending s.flushOnError s.held .finished) := by
  cases hheld : s.held with
  | none =>
    rw [halt_finished_of_none hheld] at hu
    refine gives_of_finished (by rw [hu]) ?_
    rw [hu]
    exact gives_of_exhausted howed rfl
  | some x =>
    rw [halt_finished_of_some hheld (hw x hheld)] at hu
    refine gives_cons.mpr ⟨by rw [hu], ?_⟩
    rw [hu]
    exact gives_of_exhausted howed rfl

theorem gives_of_halt_failed {error : ReadError} (hw : ∀ x ∈ s.held, x.IsWhole) (howed : s.owed = none)
    (hu : u.next = s.halt (.failed error) log chars) :
    Gives next u (ending s.flushOnError s.held (.failed error)) := by
  have hshown : s.held = none ∨ s.flushOnError = false → Gives next u [.stop (.failed error)] := by
    intro hdrop
    rw [halt_failed_of_shown hdrop] at hu
    refine gives_cons.mpr ⟨by rw [hu], ?_⟩
    rw [hu]
    exact gives_of_exhausted howed rfl
  cases hflush : s.flushOnError with
  | false => exact hshown (Or.inr hflush)
  | true =>
    cases hheld : s.held with
    | none => exact hshown (Or.inl hheld)
    | some x =>
      rw [halt_failed_of_owed hheld (hw x hheld) hflush] at hu
      refine gives_cons.mpr ⟨by rw [hu], ?_⟩
      rw [hu]
      exact gives_of_owed rfl rfl

end

theorem next_of_delivery_nil {s : TokenStream} (hs : s.Live) {stop : Stop}
    (hd : s.chars.feed.delivery = ⟨[], stop⟩) :
    s.next = s.halt stop s.chars.feed.next.log ⟨s.chars.place, s.chars.feed.next.next⟩ := by
  obtain ⟨hp, -⟩ := Feed.next_of_delivery_nil hd
  have hchars := CharStream.next_of_stop hp
  rw [next_of_live hs, advance_of_stop (by rw [hchars]), hchars]

/-- A failure that passes through leaves what is held to the pulls after it, which find the input ended. -/
theorem gives_of_halt_interrupted {s u : TokenStream} (hs : s.Live) {failure : Failure} {log : List LogEvent}
    {chars : CharStream} (hplace : chars.place = s.chars.place) (hd : chars.feed.delivery = .nothing)
    (hu : u.next = s.halt (.interrupted failure) log chars) :
    Gives next u (ending s.flushOnError s.held (.interrupted failure)) := by
  have hlive : Live { s with chars } := ⟨hs.owed, hs.unended, by rw [hplace]; exact hs.fits⟩
  refine gives_cons.mpr ⟨by rw [hu]; rfl, ?_⟩
  rw [hu]
  exact gives_of_halt_finished (fun x hx => (hs.fits x hx).whole) hs.owed (next_of_delivery_nil hlive hd)

/-- What the pulls give is what the characters to come make the stream give out, and then the ending. -/
theorem gives_of_delivery {s : TokenStream} (hs : s.Live) {t : Text} {stop : Stop}
    (hd : s.chars.feed.delivery = ⟨t, stop⟩) :
    Gives next s (((Held.meetAll s.held s.chars.place t).1.map fun h => .item h.item) ++
      ending s.flushOnError (Held.meetAll s.held s.chars.place t).2 stop) := by
  -- A pull may take any number of characters, so that the induction is on how many are left.
  induction hn : t.length using Nat.strongRecOn generalizing s t with
  | _ n ih =>
    have hnext := advances s
    rw [← next_of_live hs] at hnext
    generalize hr : s.next = r at hnext
    cases hnext with
    | @release u f out held hserves hmeet =>
      have hd' := hserves.delivery
      rw [hd] at hd'
      obtain ⟨rfl, rfl⟩ := Delivery.mk.inj hd'
      obtain ⟨hfits, hwhole⟩ := Held.fits_meetAll hs.fits u
      rw [hmeet] at hfits hwhole
      have hne : u ≠ [] := by
        rintro rfl
        cases hmeet
      have hlt : f.delivery.text.length < n := by
        have := List.length_pos_iff.mpr hne
        rw [← hn, List.length_append]
        omega
      have hlive : Live { s with chars := ⟨SourceLocation.walk s.chars.place u, f⟩, held } :=
        ⟨hs.owed, hs.unended, hfits⟩
      rw [Held.meetAll_append, hmeet]
      refine gives_cons.mpr ⟨?_, ?_⟩
      · rw [hr]
        exact Held.release_of_whole (hwhole out List.mem_cons_self)
      · rw [hr]
        exact ih _ hlt hlive rfl rfl
    | @halt u f held stop' hserves hstop hmeet =>
      have hd' := hserves.delivery
      obtain ⟨hend, hnothing⟩ := Feed.delivery_next_stop hstop
      rw [hd, hend] at hd'
      obtain ⟨hu, rfl⟩ := Delivery.mk.inj hd'
      obtain rfl : t = u := by simpa using hu
      obtain ⟨hfits, -⟩ := Held.fits_meetAll hs.fits t
      rw [hmeet] at hfits ⊢
      have hwhole : ∀ x ∈ held, x.IsWhole := fun x hx => (hfits x hx).whole
      cases stop with
      | finished => exact gives_of_halt_finished (s := { s with held }) hwhole hs.owed hr
      | failed error => exact gives_of_halt_failed (s := { s with held }) hwhole hs.owed hr
      | interrupted failure =>
        have hlive : Live { s with held, chars := ⟨SourceLocation.walk s.chars.place t, f⟩ } :=
          ⟨hs.owed, hs.unended, hfits⟩
        rw [← halt_chars _ ⟨SourceLocation.walk s.chars.place t, f⟩] at hr
        refine gives_of_halt_interrupted hlive ?_ ?_ hr
        · rfl
        · exact hnothing

end Lexeme.TokenStream
