import Lexeme.Source.Pull

/-! # What pull after pull gives

An iterator that has come to its end stays there. So a list of pulls, after which the end is shown for ever,
says everything about it (`Gives`), and a drain shows the list and the end. -/

namespace Lexeme

universe u

section
variable {σ : Type u} {α : Type} {next : σ → Reply σ α} {s t : σ}

/-- The state of an iterator after a number of pulls. -/
def stateAfter (next : σ → Reply σ α) (count : Nat) (s : σ) : σ :=
  Reply.lastState s (pullWith next count s)

/-- The items that a number of pulls give. -/
def itemsAfter (next : σ → Reply σ α) (count : Nat) (s : σ) : List α :=
  (pullWith next count s).filterMap (·.pull.item?)

/-- Pull after pull an iterator gives what is listed, and then shows the end of the input for ever. -/
def Gives (next : σ → Reply σ α) (s : σ) (pulls : List (Pull α)) : Prop :=
  ∀ count, (pullWith next count s).map (·.pull) =
    (pulls ++ List.replicate count (Pull.stop .finished)).take count

/-! ### Pulls one after another -/

theorem stateAfter_succ (next : σ → Reply σ α) (count : Nat) (s : σ) :
    stateAfter next (count + 1) s = stateAfter next count (next s).next := by
  unfold stateAfter Reply.lastState
  cases count with
  | zero => rfl
  | succ count => simp only [pullWith, List.getLast?_cons_cons]; rfl

theorem stateAfter_add (next : σ → Reply σ α) (m n : Nat) (s : σ) :
    stateAfter next (m + n) s = stateAfter next n (stateAfter next m s) := by
  induction m generalizing s with
  | zero => rw [Nat.zero_add]; rfl
  | succ m ih => rw [Nat.succ_add, stateAfter_succ, ih, stateAfter_succ]

theorem pullWith_add (next : σ → Reply σ α) (m n : Nat) (s : σ) :
    pullWith next (m + n) s = pullWith next m s ++ pullWith next n (stateAfter next m s) := by
  induction m generalizing s with
  | zero => rw [Nat.zero_add]; rfl
  | succ m ih => rw [Nat.succ_add, pullWith, ih, stateAfter_succ]; rfl

theorem itemsAfter_add (next : σ → Reply σ α) (m n : Nat) (s : σ) :
    itemsAfter next (m + n) s = itemsAfter next m s ++ itemsAfter next n (stateAfter next m s) := by
  rw [itemsAfter, pullWith_add, List.filterMap_append]
  rfl

theorem stateAfter_one (next : σ → Reply σ α) (s : σ) : stateAfter next 1 s = (next s).next := rfl

theorem itemsAfter_one (next : σ → Reply σ α) (s : σ) : itemsAfter next 1 s = (next s).pull.item?.toList := by
  rw [itemsAfter, pullWith, pullWith, List.filterMap_cons]
  cases (next s).pull.item? <;> rfl

/-! ### Pulls up to the end -/

theorem take_append_replicate_succ {β : Type} (l : List β) (n : Nat) (b : β) :
    (l ++ List.replicate (n + 1) b).take n = (l ++ List.replicate n b).take n := by
  rw [List.take_append, List.take_append, List.take_replicate, List.take_replicate,
    Nat.min_eq_left (by omega), Nat.min_eq_left (by omega)]

theorem gives_cons {p : Pull α} {pulls : List (Pull α)} :
    Gives next s (p :: pulls) ↔ (next s).pull = p ∧ Gives next (next s).next pulls := by
  constructor
  · intro h
    have hfirst : (next s).pull = p := by
      have := h 1
      simpa [pullWith] using this
    refine ⟨hfirst, fun count => ?_⟩
    have := h (count + 1)
    rw [pullWith, List.map_cons, List.cons_append, List.take_succ_cons, take_append_replicate_succ] at this
    exact (List.cons.inj this).2
  · rintro ⟨rfl, h⟩ count
    cases count with
    | zero => rfl
    | succ count =>
      rw [pullWith, List.map_cons, List.cons_append, List.take_succ_cons, take_append_replicate_succ]
      exact congrArg _ (h count)

/-- Whatever is kept by a pull that shows the end makes the end stay. -/
theorem gives_nil {P : σ → Prop} (h : ∀ s, P s → (next s).pull = .stop .finished ∧ P (next s).next)
    (hs : P s) : Gives next s [] := by
  intro count
  induction count generalizing s with
  | zero => rfl
  | succ count ih =>
    obtain ⟨hpull, hnext⟩ := h s hs
    rw [pullWith, List.map_cons, ih hnext, hpull, List.nil_append, List.nil_append, List.replicate_succ,
      List.take_succ_cons]

theorem gives_of_finished (h : (next s).pull = .stop .finished) (hrest : Gives next (next s).next []) :
    Gives next s [] := by
  intro count
  rw [gives_cons.mpr ⟨h, hrest⟩ count]
  exact take_append_replicate_succ [] count _

theorem Gives.drain {pulls : List (Pull α)} (h : Gives next s pulls) (hp : ∀ p ∈ pulls, p ≠ .stop .finished)
    {budget : Nat} (hb : pulls.length < budget) :
    (drainWith next budget s).map (·.pull) = pulls ++ [.stop .finished] := by
  induction pulls generalizing s budget with
  | nil =>
    obtain ⟨budget, rfl⟩ := Nat.exists_eq_succ_of_ne_zero (Nat.ne_of_gt hb)
    have hend : (next s).pull = .stop .finished := by
      have := h 1
      simpa [pullWith] using this
    rw [drainWith]
    simp [hend]
  | cons p pulls ih =>
    obtain ⟨budget, rfl⟩ := Nat.exists_eq_succ_of_ne_zero (Nat.ne_zero_of_lt hb)
    obtain ⟨hfirst, hrest⟩ := gives_cons.mp h
    obtain ⟨hne, hp⟩ := List.forall_mem_cons.mp hp
    have htail := ih hrest hp (Nat.lt_of_succ_lt_succ hb)
    rw [drainWith]
    split
    · rename_i hend
      exact absurd (hfirst.symm.trans hend) hne
    · rw [List.map_cons, htail, hfirst]
      rfl

end

end Lexeme
