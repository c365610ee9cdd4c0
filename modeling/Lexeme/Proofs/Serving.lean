import Lexeme.Proofs.Pulls
import Lexeme.Source.Feed

/-! # The characters that a feed gives

A feed serves its characters one to a pull, silently, and then says once why there are no more
(`delivers_iff`). What was taken from it at a moment is what the pulls up to then have given (`Yields`). -/

namespace Lexeme

/-! ### What replies of a reader have in common -/

namespace Reader

variable {r : Reader} {reply : Reply Reader Char}

theorem Replies.settled (h : Replies r reply) : ∃ last : Reader, Settles last reply := by
  induction h with
  | settles h => exact ⟨_, h⟩
  | turn _ _ ih => exact ih

/-- Serving is silent. -/
theorem Settles.log_of_item (h : Settles r reply) {c : Char} (hpull : reply.pull = .item c) : reply.log = [] := by
  cases h with
  | serves | drains => rfl
  | finishes | fails | refuses | rests => cases hpull

/-- A reader that gives no character has ended. -/
theorem Settles.ended_of_stop (h : Settles r reply) {stop : Stop} (hpull : reply.pull = .stop stop) :
    reply.next.stage = .ended := by
  cases h with
  | serves | drains => cases hpull
  | finishes | fails | refuses => rfl
  | rests hs => exact hs

theorem log_of_item {c : Char} (h : r.next.pull = .item c) : r.next.log = [] := by
  obtain ⟨last, hlast⟩ := r.replies_next.settled
  exact hlast.log_of_item h

theorem ended_of_stop {stop : Stop} (h : r.next.pull = .stop stop) : r.next.next.stage = .ended := by
  obtain ⟨last, hlast⟩ := r.replies_next.settled
  exact hlast.ended_of_stop h

end Reader

namespace Feed

theorem log_of_item {f : Feed} {c : Char} (h : f.next.pull = .item c) : f.next.log = [] := by
  cases f with
  | memory rest =>
    cases rest with
    | nil => cases h
    | cons d rest => rfl
  | reader r =>
    simp only [next, Reply.map] at h ⊢
    cases hp : r.next.pull with
    | item d => exact Reader.log_of_item hp
    | stop stop => rw [hp] at h; cases h

/-- A feed gives the characters of a text in as many pulls, which leave another feed. -/
inductive Serves : Feed → Text → Feed → Prop
  | nil (f : Feed) : Serves f [] f
  | cons {f g : Feed} {c : Char} {t : Text} : f.next.pull = .item c → Serves f.next.next t g → Serves f (c :: t) g

/-- Some number of pulls leads from one feed to another and gives a text meanwhile. -/
def Yields (f : Feed) (t : Text) (g : Feed) : Prop :=
  ∃ pulls, stateAfter next pulls f = g ∧ itemsAfter next pulls f = t

/-- A feed gives the characters of a text, then says why there are no more, and after that shows the end. -/
def Delivers (f : Feed) (t : Text) (stop : Stop) : Prop :=
  Gives next f (t.map .item ++ [.stop stop])

/-! ### One pull and the delivery -/

theorem next_of_delivery_cons {f : Feed} {c : Char} {t : Text} {stop : Stop} (h : f.delivery = ⟨c :: t, stop⟩) :
    f.next.pull = .item c ∧ f.next.next.delivery = ⟨t, stop⟩ := by
  cases hp : f.next.pull with
  | item d =>
    have hd := delivery_next_item hp
    rw [h] at hd
    obtain ⟨htext, hending⟩ := Delivery.mk.inj hd
    obtain ⟨rfl, htail⟩ := List.cons.inj htext
    exact ⟨rfl, by rw [htail, hending]; rfl⟩
  | stop stop' =>
    have hd := (delivery_next_stop hp).1
    rw [h] at hd
    cases hd

theorem next_of_delivery_nil {f : Feed} {stop : Stop} (h : f.delivery = ⟨[], stop⟩) :
    f.next.pull = .stop stop ∧ f.next.next.delivery = .nothing := by
  cases hp : f.next.pull with
  | item d =>
    have hd := delivery_next_item hp
    rw [h] at hd
    cases hd
  | stop stop' =>
    obtain ⟨hd, hnothing⟩ := delivery_next_stop hp
    rw [h] at hd
    cases hd
    exact ⟨rfl, hnothing⟩

theorem gives_nil_of_nothing {f : Feed} (h : f.delivery = .nothing) : Gives next f [] :=
  gives_nil (P := fun f => f.delivery = .nothing) (fun _ hf => next_of_delivery_nil hf) h

theorem delivers_of_delivery {f : Feed} {t : Text} {stop : Stop} (h : f.delivery = ⟨t, stop⟩) :
    f.Delivers t stop := by
  induction t generalizing f with
  | nil =>
    obtain ⟨hpull, hnothing⟩ := next_of_delivery_nil h
    exact gives_cons.mpr ⟨hpull, gives_nil_of_nothing hnothing⟩
  | cons c t ih =>
    obtain ⟨hpull, hrest⟩ := next_of_delivery_cons h
    exact gives_cons.mpr ⟨hpull, ih hrest⟩

/-- What a feed delivers is determined, as every pull is. -/
theorem delivers_iff {f : Feed} {t : Text} {stop : Stop} : f.Delivers t stop ↔ f.delivery = ⟨t, stop⟩ := by
  refine ⟨fun h => ?_, delivers_of_delivery⟩
  induction t generalizing f with
  | nil =>
    obtain ⟨hpull, -⟩ := gives_cons.mp h
    exact (delivery_next_stop hpull).1
  | cons c t ih =>
    obtain ⟨hpull, hrest⟩ := gives_cons.mp h
    rw [delivery_next_item hpull, ih hrest]
    rfl

/-! ### Runs of pulls -/

theorem Serves.delivery {f g : Feed} {t : Text} (h : Serves f t g) : f.delivery = g.delivery.after t := by
  induction h with
  | nil f => rfl
  | cons hpull _ ih =>
    rw [delivery_next_item hpull, ih]
    rfl

theorem Yields.refl (f : Feed) : Yields f [] f :=
  ⟨0, rfl, rfl⟩

theorem Yields.trans {f g h : Feed} {s t : Text} (hs : Yields f s g) (ht : Yields g t h) : Yields f (s ++ t) h := by
  obtain ⟨m, rfl, rfl⟩ := hs
  obtain ⟨n, rfl, rfl⟩ := ht
  exact ⟨m + n, stateAfter_add next m n f, itemsAfter_add next m n f⟩

theorem yields_of_item {f : Feed} {c : Char} (h : f.next.pull = .item c) : Yields f [c] f.next.next :=
  ⟨1, stateAfter_one next f, by rw [itemsAfter_one, h]; rfl⟩

theorem yields_of_stop {f : Feed} {stop : Stop} (h : f.next.pull = .stop stop) : Yields f [] f.next.next :=
  ⟨1, stateAfter_one next f, by rw [itemsAfter_one, h]; rfl⟩

theorem Serves.yields {f g : Feed} {t : Text} (h : Serves f t g) : Yields f t g := by
  induction h with
  | nil f => exact .refl f
  | cons hpull _ ih => exact (yields_of_item hpull).trans ih

/-! ### What pulls show -/

/-- As many pulls as replies are listed show these and lead from one feed to another. -/
def Shows (f : Feed) (shown : List (Pull Char)) (g : Feed) : Prop :=
  (pullWith next shown.length f).map (·.pull) = shown ∧ stateAfter next shown.length f = g

theorem Shows.refl (f : Feed) : Shows f [] f :=
  ⟨rfl, rfl⟩

theorem Shows.trans {f g h : Feed} {first second : List (Pull Char)} (hf : Shows f first g) (hg : Shows g second h) :
    Shows f (first ++ second) h := by
  obtain ⟨hfirst, rfl⟩ := hf
  obtain ⟨hsecond, rfl⟩ := hg
  refine ⟨?_, ?_⟩
  · rw [List.length_append, pullWith_add, List.map_append, hfirst, hsecond]
  · rw [List.length_append, stateAfter_add]

theorem shows_one (f : Feed) : Shows f [f.next.pull] f.next.next :=
  ⟨rfl, rfl⟩

theorem shows_cons {f g : Feed} {p : Pull Char} {shown : List (Pull Char)} :
    Shows f (p :: shown) g ↔ f.next.pull = p ∧ Shows f.next.next shown g := by
  unfold Shows
  rw [List.length_cons, pullWith, List.map_cons, stateAfter_succ, List.cons.injEq, and_assoc]

theorem Serves.shows {f g : Feed} {t : Text} (h : Serves f t g) : Shows f (t.map .item) g := by
  induction h with
  | nil f => exact .refl f
  | @cons f g c t hpull _ ih =>
    have hone := shows_one f
    rw [hpull] at hone
    exact hone.trans ih

/-! ### Feeds that are over -/

/-- A feed that shows the end and stays as it is: nothing more is read. -/
def IsOver (f : Feed) : Prop :=
  f.next = ⟨.stop .finished, [], f⟩

theorem isOver_of_ended {r : Reader} (h : r.stage = .ended) : (reader r).IsOver := by
  simp [IsOver, next, Reader.next, h, Reply.map, Pull.map]

theorem isOver_of_stop {f : Feed} {stop : Stop} (h : f.next.pull = .stop stop) : f.next.next.IsOver := by
  cases f with
  | memory rest =>
    cases rest with
    | nil => rfl
    | cons c rest => cases h
  | reader r =>
    simp only [next, Reply.map] at h ⊢
    cases hp : r.next.pull with
    | item c => rw [hp] at h; cases h
    | stop stop' => exact isOver_of_ended (Reader.ended_of_stop hp)

theorem IsOver.stateAfter {f : Feed} (h : f.IsOver) (count : Nat) : stateAfter next count f = f := by
  induction count with
  | zero => rfl
  | succ count ih => rw [stateAfter_succ, h, ih]

/-- Once a feed has shown why there are no more characters, it is over. -/
theorem Shows.isOver {f g : Feed} {shown : List (Pull Char)} {stop : Stop} (h : Shows f shown g)
    (hstop : .stop stop ∈ shown) : g.IsOver := by
  induction shown generalizing f with
  | nil => cases hstop
  | cons p shown ih =>
    obtain ⟨hfirst, hrest⟩ := shows_cons.mp h
    rcases List.mem_cons.mp hstop with rfl | hstop
    · have hover := isOver_of_stop hfirst
      rw [← hrest.2, hover.stateAfter]
      exact hover
    · exact ih hrest hstop

end Feed
end Lexeme
