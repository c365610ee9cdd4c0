import Mathlib
import Lexeme.Position
import Lexeme.Proofs.Partition

/-! # The order of positions in a text

A walk leads to later rows, or further on in its row. So the places of a text come in the order of their offsets,
whatever is compared: row and column, the whole location, or what is shown (`places_increase`). The tokens of a
text lie one after another, so their spans increase, and sorting finds the order of the text again. -/

namespace Lexeme

/-! ### Comparing -/

namespace Location

instance : Std.TransOrd Location :=
  inferInstanceAs (Std.TransCmp
    (compareLex (compareOn Location.row) (compareLex (compareOn Location.column) (compareOn Location.offset))))

/-- A location is in an earlier row than another, or in an earlier column of its row. -/
def Before (l m : Location) : Prop :=
  l.row < m.row ∨ l.row = m.row ∧ l.column < m.column

theorem compare_eq_lt_of_before {l m : Location} (h : l.Before m) : compare l m = .lt := by
  refine Ordering.then_eq_lt.mpr ?_
  rcases h with hrow | ⟨hrow, hcolumn⟩
  · exact .inl (Int.compare_eq_lt.mpr hrow)
  · exact .inr ⟨Int.compare_eq_eq.mpr hrow, Ordering.then_eq_lt.mpr (.inl (Int.compare_eq_lt.mpr hcolumn))⟩

/-- A walk over some text leads to a later row, or further on in its row. -/
theorem before_walk {u : Text} (hu : u ≠ []) (l : Location) : l.Before (l.walk u) := by
  have hlength := List.length_pos_iff.mpr hu
  rw [walk_eq]
  by_cases hrow : '\n' ∈ u
  · have hcount := List.count_pos_iff.mpr hrow
    refine .inl ?_
    dsimp only
    omega
  · refine .inr ⟨?_, ?_⟩
    · rw [List.count_eq_zero.mpr hrow]
      simp
    · dsimp only
      rw [if_neg hrow]
      omega

end Location

instance : Std.TransOrd Span :=
  inferInstanceAs (Std.TransCmp (compareLex (compareOn Span.start) (compareOn Span.stop)))

instance {α : Type} [Ord α] [Std.TransOrd α] : Std.TransOrd (InSource α) :=
  inferInstanceAs (Std.TransCmp (compareOn InSource.inner))

theorem Span.compare_eq_lt_of_start {s t : Span} (h : compare s.start t.start = .lt) : compare s t = .lt :=
  Ordering.then_eq_lt.mpr (.inl h)

/-! ### Labels -/

namespace Location

theorem colon_notMem_repr (n : Int) : ':' ∉ (Int.repr n).toList := by
  have hnat : ∀ n : Nat, ':' ∉ (Nat.repr n).toList := by
    intro n hcolon
    have hdigit := Nat.isDigit_of_mem_toDigits (b := 10) (by decide) (by decide) (by simpa [Nat.repr] using hcolon)
    exact absurd hdigit (by decide)
  cases n with
  | ofNat n => exact hnat n
  | negSucc n => simpa [Int.repr] using hnat n.succ

/-- What is shown of a location is its row and its column. -/
theorem label_inj {l m : Location} : l.label = m.label ↔ l.row = m.row ∧ l.column = m.column := by
  have hchars : ∀ l : Location, l.label.toList = (Int.repr l.row).toList ++ ':' :: (Int.repr l.column).toList := by
    intro l
    simp [label, toString]
  rw [← String.toList_inj, hchars, hchars,
    List.append_cons_inj_of_notMem (colon_notMem_repr _) (colon_notMem_repr _)]
  simp [String.toList_inj, Int.repr_inj]

end Location

/-! ### The places of a text -/

/-- The location after the first characters of a text. -/
def Text.place (t : Text) (k : Nat) : Location :=
  Location.zero.walk (t.take k)

namespace Text

variable {t : Text} {i j k : Nat}

theorem offset_place (hk : k ≤ t.length) : (t.place k).offset = k := by
  rw [place, Location.offset_walk, List.length_take_of_le hk]
  simp [Location.zero]

theorem before_place (hij : i < j) (hj : j ≤ t.length) : (t.place i).Before (t.place j) := by
  have hsplit : t.take j = t.take i ++ (t.drop i).take (j - i) := by
    rw [← List.take_add, Nat.add_sub_cancel' hij.le]
  have hne : (t.drop i).take (j - i) ≠ [] := by
    apply List.ne_nil_of_length_pos
    rw [List.length_take, List.length_drop]
    omega
  rw [place, place, hsplit, Location.walk_append]
  exact Location.before_walk hne _

theorem place_lt_iff (hi : i ≤ t.length) (hj : j ≤ t.length) : t.place i < t.place j ↔ i < j := by
  refine ⟨fun h => ?_, fun hij => Location.compare_eq_lt_of_before (before_place hij hj)⟩
  by_contra hij
  rcases Nat.eq_or_lt_of_not_lt hij with rfl | hji
  · exact absurd (Std.ReflOrd.compare_self.symm.trans h) (by decide)
  · exact Std.OrientedCmp.not_lt_of_lt h (Location.compare_eq_lt_of_before (before_place hji hi))

theorem place_le_iff (hi : i ≤ t.length) (hj : j ≤ t.length) : t.place i ≤ t.place j ↔ i ≤ j := by
  rw [← Nat.not_lt, ← place_lt_iff hj hi]
  refine ⟨fun hle => Std.OrientedCmp.not_lt_of_isLE hle, fun hnot => ?_⟩
  by_contra hle
  exact hnot (Std.OrientedCmp.lt_of_not_isLE hle)

/-- What is shown of a place tells how much of the text comes before it. -/
theorem eq_of_label_place (hi : i ≤ t.length) (hj : j ≤ t.length) (h : (t.place i).label = (t.place j).label) :
    i = j := by
  obtain ⟨hrow, hcolumn⟩ := Location.label_inj.mp h
  rcases Nat.lt_trichotomy i j with hij | rfl | hji
  · have hbefore := before_place hij hj
    simp [Location.Before, hrow, hcolumn] at hbefore
  · rfl
  · have hbefore := before_place hji hi
    simp [Location.Before, hrow, hcolumn] at hbefore

/-- A span between two places of a text holds the places that stand between them in the order. -/
theorem place_mem_iff (hi : i ≤ t.length) (hj : j ≤ t.length) (hk : k ≤ t.length) :
    t.place k ∈ (⟨t.place i, t.place j⟩ : Span) ↔ t.place i ≤ t.place k ∧ t.place k < t.place j := by
  rw [Span.mem_iff, offset_place hi, offset_place hj, offset_place hk, place_le_iff hi hk, place_lt_iff hk hj]
  omega

end Text

/-! ### The spans of tokens -/

namespace Item

/-- Of tokens laid out one after another, one covers a location whose offset lies in what they cover. -/
theorem countP_layOut (l : SourceLocation) (ts : List Token) (m : Location) :
    (layOut l ts).countP (fun i => m ∈ i.span.inner) =
      if l.inner.offset ≤ m.offset ∧ m.offset < l.inner.offset + (ts.flatMap (·.value)).length then 1 else 0 := by
  induction ts generalizing l with
  | nil => simp [layOut]
  | cons t ts ih =>
    have hfirst : m ∈ l.inner.spanTo (l.inner.walk t.value) ↔
        l.inner.offset ≤ m.offset ∧ m.offset < l.inner.offset + t.value.length := by
      rw [Span.mem_iff, Location.spanTo, Location.offset_walk]
    rw [layOut, List.countP_cons, ih]
    simp only [SourceLocation.spanTo, SourceLocation.walk, InSource.map, hfirst, Location.offset_walk,
      List.flatMap_cons, List.length_append, Int.natCast_add, decide_eq_true_eq]
    split_ifs <;> omega

theorem countP_ofText {o : Origin} {t : Text} {k : Nat} (hk : k < t.length) :
    (ofText o t).countP (fun i => t.place k ∈ i.span.inner) = 1 := by
  have hstart : o.start.inner.offset = 0 := rfl
  rw [ofText, countP_layOut, Token.flatMap_value_cut, Text.offset_place hk.le, hstart, if_pos]
  omega

/-- Tokens that are laid out one after another have increasing spans. -/
theorem increasing_layOut (l : SourceLocation) {ts : List Token} (hts : ∀ t ∈ ts, t.value ≠ []) :
    (layOut l ts).Pairwise fun i j => compare i.span j.span = .lt := by
  induction ts generalizing l with
  | nil => exact .nil
  | cons t ts ih =>
    obtain ⟨ht, hts⟩ := List.forall_mem_cons.mp hts
    refine List.pairwise_cons.mpr ⟨fun j hj => ?_, ih _ hts⟩
    obtain ⟨before, after, -, hspan⟩ := mem_layOut hj
    refine Span.compare_eq_lt_of_start (Location.compare_eq_lt_of_before ?_)
    rw [hspan]
    simp only [SourceLocation.spanTo, SourceLocation.walk, InSource.map, Location.spanTo, ← Location.walk_append]
    exact Location.before_walk (List.append_ne_nil_of_left_ne_nil ht before) _

theorem increasing_tokenize (name : String) (t : Text) :
    (tokenize name t).Pairwise fun i j => compare i.span j.span = .lt := by
  rw [tokenize_eq]
  exact increasing_layOut _ fun _ => Token.value_ne_nil_of_mem_cut

end Item

/-! ### Sorting -/

/-- Sorting positions of one kind sorts what they are made of. -/
theorem Position.sort_map {α : Type} [Ord α] (position : α → Position)
    (hkind : ∀ x y, (position x).kind = (position y).kind)
    (hcompare : ∀ x y, Position.compare? (position x) (position y) = some (compare x y)) (xs : List α) :
    Position.sort (xs.map position) = .ok ((xs.mergeSort fun x y => (compare x y).isLE).map position) := by
  have hone :
      RunMerge.clash? Position.kind (fun a b => Position.compare? a b == some .lt) (xs.map position) = none := by
    refine RunMerge.clash?_eq_none_iff.mpr fun a ha b hb => ?_
    obtain ⟨x, -, rfl⟩ := List.mem_map.mp ha
    obtain ⟨y, -, rfl⟩ := List.mem_map.mp hb
    exact hkind x y
  have hprecedes : ∀ x y, (compare x y).isLE = Position.precedes (position x) (position y) := by
    intro x y
    rw [Position.precedes, hcompare]
    cases compare x y <;> rfl
  rw [Position.sort, hone, ← List.map_mergeSort fun x _ y _ => hprecedes x y]

theorem isLE_or_isLE {α : Type} [Ord α] [Std.TransOrd α] (x y : α) :
    ((compare x y).isLE || (compare y x).isLE) = true := by
  rw [← Std.OrientedCmp.isGE_eq_isLE (a := x)]
  cases compare x y <;> rfl

/-- Positions of one kind that increase are what sorting makes of them in whatever order. -/
theorem Position.sort_of_increasing {α : Type} [Ord α] [Std.TransOrd α] (position : α → Position)
    (hkind : ∀ x y, (position x).kind = (position y).kind)
    (hcompare : ∀ x y, Position.compare? (position x) (position y) = some (compare x y)) {xs ys : List α}
    (hincreasing : xs.Pairwise fun x y => compare x y = .lt) (hperm : ys.Perm xs) :
    Position.sort (ys.map position) = .ok (xs.map position) := by
  have hsorted : (ys.mergeSort fun x y => (compare x y).isLE).Pairwise fun x y => (compare x y).isLE :=
    List.pairwise_mergeSort (fun _ _ _ => Std.TransCmp.isLE_trans) isLE_or_isLE ys
  -- Of two different values of a list that increases, one is less.
  have hanti : ∀ x ∈ xs, ∀ y ∈ xs, (compare x y).isLE → (compare y x).isLE → x = y :=
    List.Pairwise.forall_of_forall_of_flip (fun _ _ _ _ => rfl)
      (hincreasing.imp fun hlt _ hge => absurd hge (Std.OrientedCmp.not_isLE_of_lt hlt))
      (hincreasing.imp fun hlt hge _ => absurd hge (Std.OrientedCmp.not_isLE_of_lt hlt))
  have heq : (ys.mergeSort fun x y => (compare x y).isLE) = xs := by
    refine List.Perm.eq_of_pairwise ?_ hsorted (hincreasing.imp fun h => by rw [h]; rfl)
      ((List.mergeSort_perm ys _).trans hperm)
    exact fun x y hx hy => hanti x (hperm.subset ((List.mergeSort_perm ys _).subset hx)) y hy
  rw [Position.sort_map position hkind hcompare, heq]

/-- The places of a text come in the order of their offsets, by row and column alone, and their labels tell them
    apart. A span between two of them holds those between them, and just one token covers a place before the end. The
    spans of the tokens increase, and sorting them, shuffled however, gives them back in the order of the text. -/
theorem places_increase (t : Text) :
    (∀ i ≤ t.length, ∀ j ≤ t.length, (t.place i < t.place j ↔ i < j)) ∧
      (∀ i j, i < j → j ≤ t.length → (t.place i).Before (t.place j)) ∧
      (∀ i ≤ t.length, ∀ j ≤ t.length, (t.place i).label = (t.place j).label → i = j) ∧
      (∀ i ≤ t.length, ∀ j ≤ t.length, ∀ k ≤ t.length,
        t.place k ∈ (⟨t.place i, t.place j⟩ : Span) ↔ t.place i ≤ t.place k ∧ t.place k < t.place j) ∧
      ∀ name,
        (∀ k < t.length, (tokenize name t).countP (fun i => t.place k ∈ i.span.inner) = 1) ∧
        (tokenize name t).Pairwise (fun i j => i.span.inner < j.span.inner) ∧
        (tokenize name t).Pairwise (fun i j => compare i.span j.span = .lt) ∧
        (∀ spans : List Span, spans.Perm ((tokenize name t).map (·.span.inner)) →
          Position.sort (spans.map .span) = .ok (((tokenize name t).map (·.span.inner)).map .span)) ∧
        ∀ spans : List SourceSpan, spans.Perm ((tokenize name t).map (·.span)) →
          Position.sort (spans.map .sourceSpan) = .ok (((tokenize name t).map (·.span)).map .sourceSpan) := by
  have hincreasing := Item.increasing_tokenize
  refine ⟨fun i hi j hj => Text.place_lt_iff hi hj, fun i j => Text.before_place, fun i hi j hj hlabel => ?_,
    fun i hi j hj k hk => Text.place_mem_iff hi hj hk, fun name => ⟨fun k hk => ?_, hincreasing name t,
      hincreasing name t, fun spans hperm => ?_, fun spans hperm => ?_⟩⟩
  · exact Text.eq_of_label_place hi hj hlabel
  · rw [tokenize_eq]
    exact Item.countP_ofText hk
  · exact Position.sort_of_increasing .span (fun _ _ => rfl) (fun _ _ => rfl)
      (List.pairwise_map.mpr (hincreasing name t)) hperm
  · exact Position.sort_of_increasing .sourceSpan (fun _ _ => rfl) (fun _ _ => rfl)
      (List.pairwise_map.mpr (hincreasing name t)) hperm

/-- Over the line end of a text, and with the spans of its tokens turned round. -/
theorem places_increase_of_two_rows :
    let t : Text := "a b\nc".toList
    t.place 3 < t.place 4 ∧ (t.place 3).Before (t.place 4) ∧ (t.place 0).label ≠ (t.place 4).label ∧
      t.place 3 ∈ (⟨t.place 2, t.place 4⟩ : Span) ∧
      (tokenize "page" t).countP (fun i => t.place 4 ∈ i.span.inner) = 1 ∧
      Position.sort (((tokenize "page" t).map (·.span.inner)).reverse.map .span) =
        .ok (((tokenize "page" t).map (·.span.inner)).map .span) ∧
      Position.sort (((tokenize "page" t).map (·.span)).reverse.map .sourceSpan) =
        .ok (((tokenize "page" t).map (·.span)).map .sourceSpan) := by
  intro t
  obtain ⟨hlt, hbefore, hlabel, hmem, htokens⟩ := places_increase t
  obtain ⟨hcount, -, -, hspans, hsourceSpans⟩ := htokens "page"
  have hthree : t.place 3 < t.place 4 := (hlt 3 (by decide) 4 (by decide)).mpr (by decide)
  have htwo : t.place 2 ≤ t.place 3 := by decide
  exact ⟨hthree, hbefore 3 4 (by decide) (by decide),
    fun h => absurd (hlabel 0 (by decide) 4 (by decide) h) (by decide),
    (hmem 2 (by decide) 4 (by decide) 3 (by decide)).mpr ⟨htwo, hthree⟩, hcount 4 (by decide),
    hspans _ (List.reverse_perm _), hsourceSpans _ (List.reverse_perm _)⟩

end Lexeme
