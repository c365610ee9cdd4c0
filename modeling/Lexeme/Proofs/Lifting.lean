import Mathlib
import Lexeme.Proofs.Order

/-! # Positions with and without a source

A position in a source is a bare location or span that the source is carried along with. It moves as that does,
keeping the source, and stops where that stops (`BarePosition.follow?_inSource`); it compares as that does, so that
sorting leaves positions in their order whose bare positions are equal, whatever sources they lie in
(`InSource.sort_stable`). -/

namespace Lexeme

/-- A location or a span, without a source. -/
inductive BarePosition where
  | location (l : Location)
  | span (s : Span)
deriving DecidableEq, Repr

namespace BarePosition

def bare : BarePosition → Position
  | location l => .location l
  | span s => .span s

/-- The position that lies in a source. -/
def inSource (o : Origin) : BarePosition → Position
  | location l => .sourceLocation ⟨o, l⟩
  | span s => .sourceSpan ⟨o, s⟩

end BarePosition

/-- What leads from a position to another one. -/
inductive Move where
  | after (cell : Text)
  | spanTo (stop : Location)
  | extend (cell : Text)
deriving DecidableEq, Repr

def Move.member : Move → Member
  | after cell => .after cell
  | spanTo stop => .spanTo stop
  | extend cell => .extend cell

namespace Position

/-- The position that a move leads to, if there is such a move from a position of its kind. -/
def move? (p : Position) (m : Move) : Option Position :=
  match p.ask m.member with
  | .ok (.position q) => some q
  | _ => none

/-- The position that moves lead to, one after another, if there are all of them. -/
def follow? (p : Position) (moves : List Move) : Option Position :=
  moves.foldlM move? p

end Position

/-! ### Moving -/

namespace BarePosition

/-- A move leads from a position in a source where it leads from the bare one. -/
theorem move?_inSource (x : BarePosition) (m : Move) :
    ∃ next : Option BarePosition, x.bare.move? m = next.map bare ∧
      ∀ o, (x.inSource o).move? m = next.map (inSource o) := by
  cases x with
  | location l =>
    cases m with
    | after cell => exact ⟨some (location (l.after cell)), rfl, fun _ => rfl⟩
    | spanTo stop => exact ⟨some (span (l.spanTo stop)), rfl, fun _ => rfl⟩
    | extend cell => exact ⟨none, rfl, fun _ => rfl⟩
  | span s =>
    cases m with
    | after cell => exact ⟨some (span (s.after cell)), rfl, fun _ => rfl⟩
    | spanTo stop => exact ⟨some (span (s.spanTo stop)), rfl, fun _ => rfl⟩
    | extend cell => exact ⟨some (span (s.extend cell)), rfl, fun _ => rfl⟩

/-- Moves lead from a position in a source where they lead from the bare one. -/
theorem follow?_inSource (x : BarePosition) (moves : List Move) :
    ∃ reached : Option BarePosition, x.bare.follow? moves = reached.map bare ∧
      ∀ o, (x.inSource o).follow? moves = reached.map (inSource o) := by
  induction moves generalizing x with
  | nil => exact ⟨some x, rfl, fun _ => rfl⟩
  | cons m moves ih =>
    obtain ⟨next, hbare, hsource⟩ := x.move?_inSource m
    simp only [Position.follow?, List.foldlM_cons, hbare, hsource]
    cases next with
    | none => exact ⟨none, rfl, fun _ => rfl⟩
    | some y => exact ih y

/-- The ends of a position in a source are those of the bare one. -/
theorem answer?_inSource (x : BarePosition) (o : Origin) :
    ∀ m ∈ [Member.location, .span, .start, .stop], (x.inSource o).answer? m = x.bare.answer? m := by
  cases x <;> simp [inSource, bare, Position.answer?, Position.ofSpan]

end BarePosition

/-! ### Sorting -/

section
variable {α : Type}

/-- Sorting leaves values in their order that may stand on either side of each other. -/
theorem filter_mergeSort {le : α → α → Bool} (htrans : ∀ a b c, le a b → le b c → le a c)
    (htotal : ∀ a b, (le a b || le b a) = true) {p : α → Bool} (hp : ∀ a b, p a → p b → le a b) (xs : List α) :
    (xs.mergeSort le).filter p = xs.filter p := by
  have halike : (xs.filter p).Pairwise fun a b => le a b = true := by
    refine List.pairwise_iff_forall_sublist.mpr fun {a b} hsub => hp a b ?_ ?_
    · exact (List.mem_filter.mp (hsub.subset List.mem_cons_self)).2
    · exact (List.mem_filter.mp (hsub.subset (List.mem_cons_of_mem a List.mem_cons_self))).2
  -- They stand in order already, so that sorting keeps them as a sublist; and it loses none.
  have hsub := (List.sublist_mergeSort htrans htotal halike List.filter_sublist).filter p
  simp only [List.filter_filter, Bool.and_self] at hsub
  exact (hsub.eq_of_length ((List.mergeSort_perm xs le).filter p).length_eq.symm).symm

theorem InSource.sort_stable [Ord α] [Std.TransOrd α] [DecidableEq α] {qualified : InSource α → Position}
    {bare : α → Position} (hqualified : ∀ x y, Position.compare? (qualified x) (qualified y) = some (compare x y))
    (hbare : ∀ x y, Position.compare? (bare x) (bare y) = some (compare x y))
    (hqkind : ∀ x y, (qualified x).kind = (qualified y).kind) (hbkind : ∀ x y, (bare x).kind = (bare y).kind)
    (xs : List (InSource α)) :
    ∃ ys : List (InSource α), ys.Perm xs ∧ ys.Pairwise (fun x y => (compare x.inner y.inner).isLE) ∧
      Position.sort (xs.map qualified) = .ok (ys.map qualified) ∧
      Position.sort (xs.map (bare ·.inner)) = .ok (ys.map (bare ·.inner)) ∧
      ∀ a, ys.filter (·.inner = a) = xs.filter (·.inner = a) := by
  have hinner : Position.sort (xs.map (bare ·.inner)) =
      .ok ((xs.mergeSort fun x y => (compare x y).isLE).map (bare ·.inner)) :=
    Position.sort_map _ (fun x y => hbkind x.inner y.inner) (fun x y => hbare x.inner y.inner) xs
  have hsorted : (xs.mergeSort fun x y => (compare x y).isLE).Pairwise fun x y => (compare x.inner y.inner).isLE :=
    List.pairwise_mergeSort (fun _ _ _ => Std.TransCmp.isLE_trans) isLE_or_isLE xs
  refine ⟨_, List.mergeSort_perm xs _, hsorted, Position.sort_map qualified hqkind hqualified xs, hinner, fun a => ?_⟩
  refine filter_mergeSort (fun _ _ _ => Std.TransCmp.isLE_trans) isLE_or_isLE (fun x y hx hy => ?_) xs
  have hsame : x.inner = y.inner := (of_decide_eq_true hx).trans (of_decide_eq_true hy).symm
  show (compare x.inner y.inner).isLE
  rw [hsame]
  exact Std.ReflCmp.isLE_rfl

end

namespace BarePosition

/-- Moves from a position in a source lead somewhere when they do from the bare position, to what the bare position
    comes to, in the same source and with the same ends. Positions of one kind compare as their bare positions do,
    whatever sources they lie in, and are sorted like these: ascending, and those with equal bare positions in the
    order given. -/
theorem inSource_faithful (x : BarePosition) (moves : List Move) :
    (∃ reached : Option BarePosition, x.bare.follow? moves = reached.map bare ∧
        ∀ o, (x.inSource o).follow? moves = reached.map (inSource o) ∧
          ∀ y ∈ reached, ∀ m ∈ [Member.location, .span, .start, .stop], (y.inSource o).answer? m = y.bare.answer? m) ∧
      (∀ a b : SourceLocation,
        Position.same (.sourceLocation a) (.sourceLocation b) = Position.same (.location a.inner) (.location b.inner) ∧
          ∀ r, Position.relate r (.sourceLocation a) (.sourceLocation b) =
            Position.relate r (.location a.inner) (.location b.inner)) ∧
      (∀ a b : SourceSpan,
        Position.same (.sourceSpan a) (.sourceSpan b) = Position.same (.span a.inner) (.span b.inner) ∧
          ∀ r, Position.relate r (.sourceSpan a) (.sourceSpan b) = Position.relate r (.span a.inner) (.span b.inner)) ∧
      (∀ xs : List SourceLocation, ∃ ys : List SourceLocation, ys.Perm xs ∧
        ys.Pairwise (fun x y => (compare x.inner y.inner).isLE) ∧
        Position.sort (xs.map .sourceLocation) = .ok (ys.map .sourceLocation) ∧
        Position.sort (xs.map (.location ·.inner)) = .ok (ys.map (.location ·.inner)) ∧
        ∀ l, ys.filter (·.inner = l) = xs.filter (·.inner = l)) ∧
      ∀ xs : List SourceSpan, ∃ ys : List SourceSpan, ys.Perm xs ∧
        ys.Pairwise (fun x y => (compare x.inner y.inner).isLE) ∧
        Position.sort (xs.map .sourceSpan) = .ok (ys.map .sourceSpan) ∧
        Position.sort (xs.map (.span ·.inner)) = .ok (ys.map (.span ·.inner)) ∧
        ∀ s, ys.filter (·.inner = s) = xs.filter (·.inner = s) := by
  obtain ⟨reached, hbare, hsource⟩ := x.follow?_inSource moves
  refine ⟨⟨reached, hbare, fun o => ⟨hsource o, fun y _ => y.answer?_inSource o⟩⟩, fun a b => ⟨rfl, fun r => rfl⟩,
    fun a b => ⟨rfl, fun r => rfl⟩, fun xs => ?_, fun xs => ?_⟩
  · exact InSource.sort_stable (fun _ _ => rfl) (fun _ _ => rfl) (fun _ _ => rfl) (fun _ _ => rfl) xs
  · exact InSource.sort_stable (fun _ _ => rfl) (fun _ _ => rfl) (fun _ _ => rfl) (fun _ _ => rfl) xs

/-- From a location before the beginning of a source, over a line end and round to a span; a location does not
    grow; and of two locations that are equal, the one given first stays first. -/
theorem inSource_faithful_of_chain :
    let o : Origin := ⟨"page", none⟩
    let x : BarePosition := location ⟨-1, 5, -7⟩
    let grown : BarePosition := span ⟨⟨0, 0, -6⟩, ⟨2, 1, 4⟩⟩
    (x.inSource o).follow? [.after ['\n'], .spanTo ⟨2, 0, 3⟩, .extend ['a']] = some (grown.inSource o) ∧
      (grown.inSource o).answer? .start = grown.bare.answer? .start ∧
      (x.inSource o).follow? [.after ['\n'], .extend ['a']] = none ∧
      ∃ ys : List SourceLocation, Position.sort ([⟨o, ⟨1, 0, 2⟩⟩, ⟨⟨"copy", none⟩, ⟨1, 0, 2⟩⟩].map .sourceLocation) =
          .ok (ys.map .sourceLocation) ∧
        ys.filter (·.inner = ⟨1, 0, 2⟩) = [⟨o, ⟨1, 0, 2⟩⟩, ⟨⟨"copy", none⟩, ⟨1, 0, 2⟩⟩] := by
  intro o x grown
  obtain ⟨⟨reached, hbare, hsource⟩, -, -, hsort, -⟩ :=
    inSource_faithful x [.after ['\n'], .spanTo ⟨2, 0, 3⟩, .extend ['a']]
  obtain ⟨⟨stuck, hstuck, hstuckSource⟩, -⟩ := inSource_faithful x [.after ['\n'], .extend ['a']]
  -- What the bare positions come to is computed; for those in the source the theorem says it.
  have hnone : stuck = none := Option.map_eq_none_iff.mp (hstuck.symm.trans rfl)
  have hgrown : reached = some grown := by
    obtain ⟨y, hy, hspan⟩ := Option.map_eq_some_iff.mp (hbare.symm.trans rfl : reached.map bare = some grown.bare)
    cases y with
    | location l => cases hspan
    | span s =>
      cases hspan
      exact hy
  obtain ⟨hreached, hends⟩ := hsource o
  obtain ⟨ys, -, -, hys, -, hstable⟩ := hsort [⟨o, ⟨1, 0, 2⟩⟩, ⟨⟨"copy", none⟩, ⟨1, 0, 2⟩⟩]
  refine ⟨?_, hends grown hgrown .start (by decide), ?_, ys, hys, ?_⟩
  · rw [hreached, hgrown]
    rfl
  · rw [(hstuckSource o).1, hnone]
    rfl
  · rw [hstable ⟨1, 0, 2⟩]
    rfl

end BarePosition

end Lexeme
