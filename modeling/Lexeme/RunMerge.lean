/-! # Sorting by runs

A sort that has to compare two values of different kinds cannot go on, and which two it meets first depends
on the order of its comparisons. Here that order is the following. Values are cut from left to right into
runs, ascending or strictly descending; a short run takes in the values after it until it has the least
length. When a run begins, the earlier runs are merged whose boundaries lie deeper than the boundary before
the new run; when the values end, all runs that are left are merged.

Two kinds that meet are a clash. It names two different kinds of the values (`among_of_clash?_eq_some`), and
there is none exactly if all values are of one kind (`clash?_eq_none_iff`). -/

namespace Lexeme

/-- The kinds of two values that are compared although they are in no order, as they stand in the
    comparison. -/
structure Clash (κ : Type) where
  left : κ
  right : κ
deriving DecidableEq, Repr

namespace RunMerge

/-- Neighbouring values that are in order: the place of the first one, their number and kind, and the depth
    of the boundary after them. -/
structure Run (κ : Type) where
  start : Nat
  length : Nat
  kind : κ
  depth : Nat := 0

/-- The least length of a run among a number of values: the first six binary digits of the number, and one
    more if a digit after them is set. -/
def leastLength (total : Nat) : Nat :=
  let shift := total.log2 - 5
  let head := total >>> shift
  if head <<< shift = total then head else head + 1

/-- The depth of the boundary between a run and the next one, of a given length: how often the halves of the
    whole have to be halved again until the middles of the two runs lie in different parts. -/
def boundaryDepth {κ : Type} (total : Nat) (run : Run κ) (next : Nat) : Nat :=
  let middle := 2 * run.start + run.length
  let nextMiddle := middle + run.length + next
  ((List.range (total.log2 + 1)).find? fun depth =>
    (middle <<< depth) / total ≠ (nextMiddle <<< depth) / total).getD total.log2

variable {α κ : Type} [DecidableEq κ]

/-- The number of values that go on in the direction of a run after a value of it. -/
def following (kind : α → κ) (less : α → α → Bool) (descending : Bool) (last : α) :
    List α → Except (Clash κ) Nat
  | [] => .ok 0
  | a :: rest =>
    if kind a ≠ kind last then .error ⟨kind a, kind last⟩
    else if less a last = descending then (following kind less descending a rest).map (· + 1)
    else .ok 0

/-- The number of values that belong to a run after its first one: those that go on in its direction, and
    as many as the least length asks for. -/
def extent (kind : α → κ) (less : α → α → Bool) (least : Nat) (first : α) (rest : List α) :
    Except (Clash κ) Nat :=
  match following kind less (rest.head?.any (less · first)) first rest with
  | .error clash => .error clash
  | .ok count =>
    match (rest.take (least - 1)).find? (kind · ≠ kind first) with
    | some a => .error ⟨kind a, kind first⟩
    | none => .ok (max count (min (least - 1) rest.length))

/-- A run and the next one as one run. The first value of the later one is compared with the first of the
    earlier one before all others. -/
def Run.join (earlier later : Run κ) : Except (Clash κ) (Run κ) :=
  if later.kind = earlier.kind then .ok { earlier with length := earlier.length + later.length }
  else .error ⟨later.kind, earlier.kind⟩

/-- Merges the last of some runs, which are given last one first, into the one before it as long as the
    boundary between the two lies deeper than the boundary after the last. -/
def settle (depth : Nat) (last : Run κ) : List (Run κ) → Except (Clash κ) (List (Run κ))
  | [] => .ok [{ last with depth := depth }]
  | earlier :: runs =>
    if depth < earlier.depth then
      match earlier.join last with
      | .ok joined => settle depth joined runs
      | .error clash => .error clash
    else .ok ({ last with depth := depth } :: earlier :: runs)

/-- The runs with a new one after them, last one first. -/
def enter (total : Nat) (run : Run κ) : List (Run κ) → Except (Clash κ) (List (Run κ))
  | [] => .ok [run]
  | last :: runs => (settle (boundaryDepth total last run.length) last runs).map (run :: ·)

/-- The runs that are left when all values are cut, last one first. -/
def cut (kind : α → κ) (less : α → α → Bool) (total : Nat) (runs : List (Run κ)) (start : Nat) :
    List α → Except (Clash κ) (List (Run κ))
  | [] => .ok runs
  | first :: rest =>
    match extent kind less (leastLength total) first rest with
    | .error clash => .error clash
    | .ok count =>
      match enter total ⟨start, count + 1, kind first, 0⟩ runs with
      | .error clash => .error clash
      | .ok runs => cut kind less total runs (start + count + 1) (rest.drop count)
termination_by values => values.length

/-- Merges the runs that are left, last one first: the last two, or the second last and the third last if
    the last is longer than the third last. -/
def mergeAll : List (Run κ) → Except (Clash κ) Unit
  | last :: middle :: first :: runs =>
    if first.length < last.length then
      match first.join middle with
      | .ok joined => mergeAll (last :: joined :: runs)
      | .error clash => .error clash
    else
      match middle.join last with
      | .ok joined => mergeAll (joined :: first :: runs)
      | .error clash => .error clash
  | [last, first] => (first.join last).map fun _ => ()
  | _ => .ok ()
termination_by runs => runs.length

/-- The first clash that a sort of values meets. -/
def clash? (kind : α → κ) (less : α → α → Bool) (values : List α) : Option (Clash κ) :=
  match cut kind less values.length [] 0 values with
  | .error clash => some clash
  | .ok runs =>
    match mergeAll runs with
    | .error clash => some clash
    | .ok _ => none

/-- A clash is among some kinds when it names two different ones of them. -/
def Among (clash : Clash κ) (kinds : List κ) : Prop :=
  clash.left ≠ clash.right ∧ clash.left ∈ kinds ∧ clash.right ∈ kinds

theorem following_error {kind : α → κ} {less : α → α → Bool} {descending : Bool} {last : α} {rest : List α}
    {clash : Clash κ} (h : following kind less descending last rest = .error clash) :
    Among clash ((last :: rest).map kind) := by
  induction rest generalizing last with
  | nil => simp [following] at h
  | cons a rest ih =>
    unfold following at h
    split at h
    · cases h
      simp_all [Among]
    · split at h
      · cases hf : following kind less descending a rest with
        | error c =>
          simp only [hf, Except.map, Except.error.injEq] at h
          subst h
          obtain ⟨hne, hl, hr⟩ := ih hf
          exact ⟨hne, List.mem_cons_of_mem _ hl, List.mem_cons_of_mem _ hr⟩
        | ok n => simp [hf, Except.map] at h
      · cases h

theorem kind_eq_of_following {kind : α → κ} {less : α → α → Bool} {descending : Bool} {last : α}
    {rest : List α} {count : Nat} (h : following kind less descending last rest = .ok count) :
    ∀ a ∈ rest.take count, kind a = kind last := by
  induction rest generalizing last count with
  | nil => simp
  | cons a rest ih =>
    unfold following at h
    split at h
    · cases h
    · rename_i hk
      simp only [ne_eq, Decidable.not_not] at hk
      split at h
      · cases hf : following kind less descending a rest with
        | error c => simp [hf, Except.map] at h
        | ok n =>
          simp only [hf, Except.map, Except.ok.injEq] at h
          subst h
          simp only [List.take_succ_cons, List.mem_cons, forall_eq_or_imp]
          exact ⟨hk, fun b hb => (ih hf b hb).trans hk⟩
      · cases h
        simp

theorem extent_error {kind : α → κ} {less : α → α → Bool} {least : Nat} {first : α} {rest : List α}
    {clash : Clash κ} (h : extent kind less least first rest = .error clash) :
    Among clash ((first :: rest).map kind) := by
  unfold extent at h
  split at h
  · rename_i hf
    cases h
    exact following_error hf
  · split at h
    · rename_i a ha
      cases h
      have hne : kind a ≠ kind first := by simpa using List.find?_some ha
      have hmem := List.mem_of_mem_take (List.mem_of_find?_eq_some ha)
      exact ⟨hne, List.mem_cons_of_mem _ (List.mem_map_of_mem hmem), List.mem_cons_self⟩
    · cases h

theorem kind_eq_of_extent {kind : α → κ} {less : α → α → Bool} {least : Nat} {first : α} {rest : List α}
    {count : Nat} (h : extent kind less least first rest = .ok count) :
    ∀ a ∈ rest.take count, kind a = kind first := by
  unfold extent at h
  split at h
  · cases h
  · rename_i count hf
    split at h
    · cases h
    · rename_i hn
      cases h
      intro a ha
      rcases Nat.le_total (min (least - 1) rest.length) count with hle | hle
      · rw [Nat.max_eq_left hle] at ha
        exact kind_eq_of_following hf a ha
      · rw [Nat.max_eq_right hle, List.take_eq_take_min, Nat.min_assoc, Nat.min_self,
          ← List.take_eq_take_min] at ha
        simpa using List.find?_eq_none.1 hn a ha

theorem join_error {earlier later : Run κ} {clash : Clash κ} (h : earlier.join later = .error clash) :
    clash = ⟨later.kind, earlier.kind⟩ ∧ later.kind ≠ earlier.kind := by
  unfold Run.join at h
  grind

theorem join_ok {earlier later joined : Run κ} (h : earlier.join later = .ok joined) :
    joined.kind = earlier.kind ∧ later.kind = earlier.kind := by
  unfold Run.join at h
  grind

theorem settle_error {depth : Nat} {last : Run κ} {runs : List (Run κ)} {clash : Clash κ}
    (h : settle depth last runs = .error clash) : Among clash ((last :: runs).map (·.kind)) := by
  induction runs generalizing last with
  | nil => cases h
  | cons earlier runs ih =>
    unfold settle Run.join at h
    grind [Among]

theorem kinds_of_settle {depth : Nat} {last : Run κ} {runs settled : List (Run κ)}
    (h : settle depth last runs = .ok settled) (k : κ) :
    k ∈ settled.map (·.kind) ↔ k ∈ (last :: runs).map (·.kind) := by
  induction runs generalizing last with
  | nil => cases h; simp
  | cons earlier runs ih =>
    unfold settle Run.join at h
    grind

theorem enter_error {total : Nat} {run : Run κ} {runs : List (Run κ)} {clash : Clash κ}
    (h : enter total run runs = .error clash) : Among clash (runs.map (·.kind)) := by
  cases runs with
  | nil => cases h
  | cons last runs =>
    unfold enter at h
    cases hs : settle (boundaryDepth total last run.length) last runs with
    | error c =>
      simp only [hs, Except.map, Except.error.injEq] at h
      exact h ▸ settle_error hs
    | ok settled => simp [hs, Except.map] at h

theorem kinds_of_enter {total : Nat} {run : Run κ} {runs entered : List (Run κ)}
    (h : enter total run runs = .ok entered) (k : κ) :
    k ∈ entered.map (·.kind) ↔ k = run.kind ∨ k ∈ runs.map (·.kind) := by
  cases runs with
  | nil => cases h; simp
  | cons last runs =>
    unfold enter at h
    cases hs : settle (boundaryDepth total last run.length) last runs with
    | error c => simp [hs, Except.map] at h
    | ok settled =>
      simp only [hs, Except.map, Except.ok.injEq] at h
      subst h
      rw [List.map_cons, List.mem_cons, kinds_of_settle hs]

theorem cut_error {kind : α → κ} {less : α → α → Bool} {total start : Nat} {runs : List (Run κ)}
    {values : List α} {clash : Clash κ} (h : cut kind less total runs start values = .error clash) :
    Among clash (runs.map (·.kind) ++ values.map kind) := by
  fun_induction cut kind less total runs start values with
  | case1 => cases h
  | case2 runs start first rest c he =>
    cases h
    have := extent_error he
    grind [Among]
  | case3 runs start first rest count he c hn =>
    cases h
    have := enter_error hn
    grind [Among]
  | case4 runs start first rest count he entered hn ih =>
    have hk := kinds_of_enter hn
    have := ih h
    have hd : ∀ k, k ∈ (rest.drop count).map kind → k ∈ rest.map kind := fun k hk =>
      List.map_subset kind (List.drop_subset count rest) hk
    grind [Among]

theorem kinds_of_cut {kind : α → κ} {less : α → α → Bool} {total start : Nat} {runs left : List (Run κ)}
    {values : List α} (h : cut kind less total runs start values = .ok left) (k : κ) :
    k ∈ left.map (·.kind) ↔ k ∈ runs.map (·.kind) ++ values.map kind := by
  fun_induction cut kind less total runs start values with
  | case1 => cases h; simp
  | case2 => cases h
  | case3 => cases h
  | case4 runs start first rest count he entered hn ih =>
    have hfirst := kind_eq_of_extent he
    rw [ih h, List.mem_append, kinds_of_enter hn, List.mem_append]
    have hrest : k ∈ rest.map kind ↔ k ∈ (rest.take count).map kind ∨ k ∈ (rest.drop count).map kind := by
      rw [← List.mem_append, ← List.map_append, List.take_append_drop]
    have htake : k ∈ (rest.take count).map kind → k = kind first := by
      simp only [List.mem_map]
      rintro ⟨a, ha, rfl⟩
      exact hfirst a ha
    grind

theorem mergeAll_error {runs : List (Run κ)} {clash : Clash κ} (h : mergeAll runs = .error clash) :
    Among clash (runs.map (·.kind)) := by
  fun_induction mergeAll runs with
  | case1 last middle first runs hlt joined hj ih =>
    have := join_ok hj
    have := ih h
    grind [Among]
  | case2 last middle first runs hlt c hj =>
    cases h
    have := join_error hj
    grind [Among]
  | case3 last middle first runs hle joined hj ih =>
    have := join_ok hj
    have := ih h
    grind [Among]
  | case4 last middle first runs hle c hj =>
    cases h
    have := join_error hj
    grind [Among]
  | case5 last first =>
    cases hj : first.join last with
    | ok joined => simp [hj, Except.map] at h
    | error c =>
      have := join_error hj
      grind [Among, Except.map]
  | case6 => cases h

theorem kind_eq_of_mergeAll {runs : List (Run κ)} (h : mergeAll runs = .ok ()) :
    ∀ k ∈ runs.map (·.kind), ∀ l ∈ runs.map (·.kind), k = l := by
  fun_induction mergeAll runs with
  | case1 last middle first runs hlt joined hj ih =>
    have := join_ok hj
    have := ih h
    simp only [List.map_cons, List.mem_cons] at *
    grind
  | case2 => cases h
  | case3 last middle first runs hle joined hj ih =>
    have := join_ok hj
    have := ih h
    simp only [List.map_cons, List.mem_cons] at *
    grind
  | case4 => cases h
  | case5 last first =>
    cases hj : first.join last with
    | ok joined =>
      have := join_ok hj
      simp only [List.map_cons, List.mem_cons] at *
      grind
    | error c => simp [hj, Except.map] at h
  | case6 runs hlong hpair =>
    match runs with
    | [] => simp
    | [run] => simp
    | [last, first] => exact (hpair last first rfl).elim
    | last :: middle :: first :: runs => exact (hlong last middle first runs rfl).elim

/-- A clash is among the kinds of the values. -/
theorem among_of_clash?_eq_some {kind : α → κ} {less : α → α → Bool} {values : List α} {clash : Clash κ}
    (h : clash? kind less values = some clash) : Among clash (values.map kind) := by
  unfold clash? at h
  split at h
  · rename_i hc
    cases h
    simpa using cut_error hc
  · rename_i runs hc
    split at h
    · rename_i hm
      cases h
      obtain ⟨hne, hl, hr⟩ := mergeAll_error hm
      rw [kinds_of_cut hc] at hl hr
      exact ⟨hne, hl, hr⟩
    · cases h

/-- Without a clash, all values are of one kind. -/
theorem kind_eq_of_clash?_eq_none {kind : α → κ} {less : α → α → Bool} {values : List α}
    (h : clash? kind less values = none) : ∀ a ∈ values, ∀ b ∈ values, kind a = kind b := by
  unfold clash? at h
  split at h
  · cases h
  · rename_i runs hc
    split at h
    · cases h
    · rename_i hm
      intro a ha b hb
      exact kind_eq_of_mergeAll hm _ ((kinds_of_cut hc _).2 (by simpa using ⟨a, ha, rfl⟩)) _
        ((kinds_of_cut hc _).2 (by simpa using ⟨b, hb, rfl⟩))

/-- Values clash unless they are of one kind. -/
theorem clash?_eq_none_iff {kind : α → κ} {less : α → α → Bool} {values : List α} :
    clash? kind less values = none ↔ ∀ a ∈ values, ∀ b ∈ values, kind a = kind b := by
  refine ⟨kind_eq_of_clash?_eq_none, fun h => ?_⟩
  cases hc : clash? kind less values with
  | none => rfl
  | some clash =>
    obtain ⟨hne, hl, hr⟩ := among_of_clash?_eq_some hc
    obtain ⟨a, ha, hl⟩ := List.mem_map.1 hl
    obtain ⟨b, hb, hr⟩ := List.mem_map.1 hr
    exact (hne (hl ▸ hr ▸ h a ha b hb)).elim

end RunMerge
end Lexeme
