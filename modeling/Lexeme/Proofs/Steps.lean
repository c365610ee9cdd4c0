import Lexeme.Session

/-! # What a command does to a session

A command leaves the sources and the cursors of a session alone, or makes a source, closes one, opens a cursor
over one, or replaces a cursor by what it is after some pulls (`Session.Changes`). So a key that a source was
given belongs to the sources of one name for good (`Owns`), and what is held under a name stays as it is until a
command is about it. -/

namespace Lexeme

universe u

/-- What is looked up is still found when all is changed but itself, and nothing that it is looked up by. -/
theorem find?_map_of_fixed {α : Type u} {p : α → Bool} {f : α → α} {l : List α} {a : α} (hp : ∀ b, p (f b) = p b)
    (h : l.find? p = some a) (hf : f a = a) : (l.map f).find? p = some a := by
  have hcomp : p ∘ f = p := funext hp
  rw [List.find?_map, hcomp, h, Option.map_some, hf]

namespace Command

/-- Commands that make a source under a name. -/
def makes (id : String) : Command → Bool
  | makeText other .. => other == id
  | makeReader other .. => other == id
  | _ => false

/-- Commands that open a cursor under a name. -/
def opens (id : String) : Command → Bool
  | openCursor _ other _ => other == id
  | _ => false

/-- Commands that take the characters of the source of a name, or close it. -/
def uses (id : String) : Command → Bool
  | openCursor _ _ other => other == id
  | close other => other == id
  | _ => false

/-- Commands that pull the cursor of a name or ask for its state. -/
def asks (id : String) : Command → Bool
  | pull other _ => other == id
  | drain other => other == id
  | state other => other == id
  | _ => false

end Command

namespace Session

variable {s t : Session} {id src : String} {key : Nat} {command : Command}

/-! ### Looking up -/

theorem id_of_source? {e : SourceEntry} (h : s.source? id = some e) : e.id = id := by
  have hid := List.find?_some h
  exact beq_iff_eq.mp hid

theorem id_of_cursor? {e : CursorEntry} (h : s.cursor? id = some e) : e.id = id := by
  have hid := List.find?_some h
  exact beq_iff_eq.mp hid

theorem source?_addSource (s : Session) (id : String) (source : Source) (message : String) :
    (s.addSource id source message).source? id = some ⟨id, s.sources.length, source, message⟩ := by
  simp [source?, addSource]

theorem cursor?_putCursor (s : Session) (e : CursorEntry) : (s.putCursor e).cursor? e.id = some e := by
  simp [cursor?, putCursor]

theorem cursor?_putCursor_of_ne {e : CursorEntry} (h : e.id ≠ id) : (s.putCursor e).cursor? id = s.cursor? id := by
  have hskip : ∀ old : CursorEntry, decide (old.id != e.id ∧ old.id == id) = (old.id == id) := by
    intro old
    by_cases hold : old.id = id
    · simp [hold, Ne.symm h]
    · simp [hold]
  have hhead : (e.id == id) = false := beq_eq_false_iff_ne.mpr h
  simp only [cursor?, putCursor, List.find?_cons, hhead, List.find?_filter, hskip]

@[simp] theorem sources_noteSpans (s : Session) (id : String) (spans : List SourceSpan) :
    (s.noteSpans id spans).sources = s.sources := by
  unfold noteSpans
  split <;> rfl

@[simp] theorem cursors_noteSpans (s : Session) (id : String) (spans : List SourceSpan) :
    (s.noteSpans id spans).cursors = s.cursors := by
  unfold noteSpans
  split <;> rfl

@[simp] theorem codecs_noteSpans (s : Session) (id : String) (spans : List SourceSpan) :
    (s.noteSpans id spans).codecs = s.codecs := by
  unfold noteSpans
  split <;> rfl

theorem cursor?_congr (h : t.cursors = s.cursors) : t.cursor? id = s.cursor? id := by
  rw [cursor?, cursor?, h]

theorem source?_congr (h : t.sources = s.sources) : t.source? id = s.source? id := by
  rw [source?, source?, h]

theorem mem_putSource {source : Source} {e : SourceEntry} (h : e ∈ (s.putSource key source).sources) :
    ∃ old ∈ s.sources, old.id = e.id ∧ old.key = e.key := by
  obtain ⟨old, hold, rfl⟩ := List.mem_map.mp h
  refine ⟨old, hold, ?_⟩
  split <;> exact ⟨rfl, rfl⟩

theorem length_putSource (s : Session) (key : Nat) (source : Source) :
    (s.putSource key source).sources.length = s.sources.length :=
  List.length_map _

theorem source?_putSource_of_ne {source : Source} {e : SourceEntry} (h : s.source? id = some e) (hne : e.key ≠ key) :
    (s.putSource key source).source? id = some e := by
  refine find?_map_of_fixed (fun old => ?_) h (if_neg hne)
  split <;> rfl

theorem cursor?_close_of_ne {e : SourceEntry} {c : CursorEntry} (h : s.cursor? id = some c) (hne : c.key ≠ e.key) :
    (s.close e).cursor? id = some c := by
  refine find?_map_of_fixed (fun old => ?_) h (if_neg hne)
  split <;> rfl

/-! ### One command -/

/-- All that a command may change of the sources and the cursors. The codecs stay. -/
inductive Changes (s : Session) (command : Command) (t : Session) : Prop
  | rest : t.sources = s.sources → t.cursors = s.cursors → t.codecs = s.codecs → Changes s command t
  | make (id : String) (source : Source) (message : String) : command.makes id →
      t = s.addSource id source message → Changes s command t
  | close (e : SourceEntry) : e ∈ s.sources → command = .close e.id → t = s.close e → Changes s command t
  | take (e : SourceEntry) (source : Source) (new : CursorEntry) : e ∈ s.sources → command.uses e.id →
      command.opens new.id → new.key = e.key → t = (s.putSource e.key source).putCursor new → Changes s command t
  | reply (old new : CursorEntry) : s.cursor? old.id = some old → command.asks old.id → new.id = old.id →
      new.key = old.key → t.sources = s.sources → t.cursors = (s.putCursor new).cursors → t.codecs = s.codecs →
      Changes s command t

theorem changes_withSource {answer : SourceEntry → Response}
    (h : ∀ e, s.source? id = some e → Changes s command (answer e).next) :
    Changes s command (s.withSource id answer).next := by
  unfold withSource
  split
  · exact .rest rfl rfl rfl
  · exact h _ ‹_›

theorem changes_withCursor {answer : CursorEntry → Response}
    (h : ∀ e, s.cursor? id = some e → Changes s command (answer e).next) :
    Changes s command (s.withCursor id answer).next := by
  unfold withCursor
  split
  · exact .rest rfl rfl rfl
  · exact h _ ‹_›

theorem changes_replied {e : CursorEntry} (hc : s.cursor? id = some e) (hasks : command.asks id)
    (replies : List (Reply Cursor Given)) : Changes s command (s.replied e replies).next := by
  obtain rfl := id_of_cursor? hc
  exact .reply e { e with cursor := Reply.lastState e.cursor replies } hc hasks rfl rfl
    (by simp [replied, putCursor]) (by simp [replied]) (by simp [replied, putCursor])

theorem changes_openCursor (s : Session) (what : Opening) (id src : String) :
    Changes s (.openCursor what id src) (s.step (.openCursor what id src)).next := by
  have htake : ∀ e, s.source? src = some e → ∀ source cursor, Changes s (.openCursor what id src)
      ((s.putSource e.key source).putCursor ⟨id, e.key, cursor⟩) := by
    intro e he source cursor
    refine .take e source ⟨id, e.key, cursor⟩ (List.mem_of_find?_eq_some he) ?_ (beq_self_eq_true id) rfl rfl
    rw [id_of_source? he]
    exact beq_self_eq_true src
  cases what with
  | tokens =>
    refine changes_withSource fun e he => ?_
    unfold openTokens
    split
    · exact .rest rfl rfl rfl
    · exact htake e he _ _
  | chars =>
    refine changes_withSource fun e he => ?_
    unfold openChars
    split
    · exact .rest rfl rfl rfl
    · exact htake e he _ _
  | bare =>
    refine changes_withSource fun e he => ?_
    unfold openBare
    split
    · exact .rest rfl rfl rfl
    · exact htake e he _ _

theorem changes (s : Session) (command : Command) : Changes s command (s.step command).next := by
  cases command with
  | makeText id name text => exact .make id _ _ (beq_self_eq_true id) rfl
  | makeReader id name input encoding errors => exact .make id _ _ (beq_self_eq_true id) rfl
  | close id =>
    refine changes_withSource fun e he => .close e (List.mem_of_find?_eq_some he) ?_ rfl
    rw [id_of_source? he]
  | openCursor what id src => exact changes_openCursor s what id src
  | pull id count => exact changes_withCursor fun e hc => changes_replied hc (by simp [Command.asks]) _
  | drain id => exact changes_withCursor fun e hc => changes_replied hc (by simp [Command.asks]) _
  | state id =>
    refine changes_withCursor fun e hc => ?_
    split <;> exact .rest rfl rfl rfl
  | describe id => exact changes_withSource fun e he => .rest rfl rfl rfl
  | excerpt id span => exact changes_withSource fun e he => .rest rfl rfl rfl
  | lastExcerpt id =>
    simp only [step]
    split <;> exact .rest rfl rfl rfl
  | setConfig | enterConfig | leaveConfig | resetConfig | showConfig | channel => exact .rest rfl rfl rfl

/-! ### What stays as it is -/

theorem Changes.codecs (h : Changes s command t) : t.codecs = s.codecs := by
  cases h with
  | rest _ _ hcodecs | reply _ _ _ _ _ _ _ _ hcodecs => exact hcodecs
  | make _ _ _ _ ht | close _ _ _ ht | take _ _ _ _ _ _ _ ht =>
    subst ht
    rfl

/-- Every source was there under its name and key, or was just made under the next key. -/
theorem Changes.mem_sources (h : Changes s command t) {e : SourceEntry} (he : e ∈ t.sources) :
    (∃ old ∈ s.sources, old.id = e.id ∧ old.key = e.key) ∨
      e.key = s.sources.length ∧ t.sources.length = s.sources.length + 1 := by
  cases h with
  | rest hsources _ _ =>
    rw [hsources] at he
    exact Or.inl ⟨e, he, rfl, rfl⟩
  | make id source message _ ht =>
    subst ht
    rcases List.mem_cons.mp he with rfl | he
    · exact Or.inr ⟨rfl, rfl⟩
    · exact Or.inl ⟨e, he, rfl, rfl⟩
  | close closed _ _ ht =>
    subst ht
    exact Or.inl (mem_putSource he)
  | take taken source new _ _ _ _ ht =>
    subst ht
    exact Or.inl (mem_putSource (s := s) he)
  | reply old new _ _ _ _ hsources _ _ =>
    rw [hsources] at he
    exact Or.inl ⟨e, he, rfl, rfl⟩

theorem Changes.length_le (h : Changes s command t) : s.sources.length ≤ t.sources.length := by
  cases h with
  | rest hsources _ _ => exact Nat.le_of_eq (by rw [hsources])
  | make id source message _ ht =>
    subst ht
    exact Nat.le_succ _
  | close closed _ _ ht =>
    subst ht
    exact Nat.le_of_eq (length_putSource s _ _).symm
  | take taken source new _ _ _ _ ht =>
    subst ht
    exact Nat.le_of_eq (length_putSource s _ _).symm
  | reply old new _ _ _ _ hsources _ _ => exact Nat.le_of_eq (by rw [hsources])

/-- The keys of sources count them, so that the next key is fresh. -/
def Keyed (s : Session) : Prop :=
  ∀ e ∈ s.sources, e.key < s.sources.length

theorem Keyed.changes (hs : s.Keyed) (h : Changes s command t) : t.Keyed := by
  intro e he
  have hle := h.length_le
  rcases h.mem_sources he with ⟨old, hold, -, hkey⟩ | ⟨hkey, hlength⟩
  · have := hs old hold
    omega
  · omega

/-- A key that was given to a source belongs to the sources of one name. -/
structure Owns (s : Session) (src : String) (key : Nat) : Prop where
  given : key < s.sources.length
  own : ∀ e ∈ s.sources, e.key = key → e.id = src

theorem Owns.changes (hs : s.Owns src key) (h : Changes s command t) : t.Owns src key where
  given := Nat.lt_of_lt_of_le hs.given h.length_le
  own e he hkey := by
    rcases h.mem_sources he with ⟨old, hold, hid, hold'⟩ | ⟨hnext, -⟩
    · exact hid ▸ hs.own old hold (hold'.trans hkey)
    · exact absurd (hnext.symm.trans hkey) (Nat.ne_of_gt hs.given)

theorem owns_addSource (hs : s.Keyed) (src : String) (source : Source) (message : String) :
    (s.addSource src source message).Owns src s.sources.length where
  given := Nat.lt_succ_self _
  own e he hkey := by
    rcases List.mem_cons.mp he with rfl | he
    · rfl
    · exact absurd hkey (Nat.ne_of_lt (hs e he))

/-- A source stays as it is until a command is about its name. -/
theorem Owns.source?_of_changes (hs : s.Owns src key) (h : Changes s command t) {e : SourceEntry}
    (he : s.source? src = some e) (hkey : e.key = key) (hmakes : command.makes src = false)
    (huses : command.uses src = false) : t.source? src = some e := by
  -- A source that the command is about has another name, so that it has another key.
  have hother : ∀ other ∈ s.sources, command.uses other.id → e.key ≠ other.key := by
    intro other hmem hother heq
    rw [hs.own other hmem (heq.symm.trans hkey), huses] at hother
    cases hother
  cases h with
  | rest hsources _ _ => rw [source?_congr hsources, he]
  | make id source message hmade ht =>
    subst ht
    have hne : id ≠ src := by
      rintro rfl
      rw [hmakes] at hmade
      cases hmade
    rw [source?, addSource, List.find?_cons_of_neg (by simpa using hne)]
    exact he
  | close closed hmem hclosed ht =>
    subst ht
    exact source?_putSource_of_ne he (hother closed hmem (by rw [hclosed]; exact beq_self_eq_true closed.id))
  | take taken source new hmem htaken _ _ ht =>
    subst ht
    exact source?_putSource_of_ne (s := s) he (hother taken hmem htaken)
  | reply old new _ _ _ _ hsources _ _ => rw [source?_congr hsources, he]

/-- A cursor stays as it is until a command is about its name or closes its source. -/
theorem Owns.cursor?_of_changes (hs : s.Owns src key) (h : Changes s command t) {c : CursorEntry}
    (hc : s.cursor? id = some c) (hkey : c.key = key) (hopens : command.opens id = false)
    (hasks : command.asks id = false) (hclose : command ≠ .close src) : t.cursor? id = some c := by
  cases h with
  | rest _ hcursors _ => rw [cursor?_congr hcursors, hc]
  | make name source message _ ht =>
    subst ht
    exact hc
  | close closed hmem hclosed ht =>
    subst ht
    refine cursor?_close_of_ne hc fun heq => hclose ?_
    rw [hclosed, hs.own closed hmem (heq.symm.trans hkey)]
  | take taken source new _ _ hnew _ ht =>
    subst ht
    have hne : new.id ≠ id := by
      rintro rfl
      rw [hopens] at hnew
      cases hnew
    rw [cursor?_putCursor_of_ne hne]
    exact hc
  | reply old new _ hold hid _ _ hcursors _ =>
    have hne : new.id ≠ id := by
      rintro rfl
      rw [hid.symm, hasks] at hold
      cases hold
    rw [cursor?_congr hcursors, cursor?_putCursor_of_ne hne, hc]

end Session

end Lexeme
