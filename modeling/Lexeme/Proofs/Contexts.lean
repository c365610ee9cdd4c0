import Lexeme.Session

/-! # Contexts of settings

Contexts nest: the settings after one are those before it, whatever was set, reset or entered inside and however it
was left, so that what counts at a level is what was set there last (`Session.contexts_nest`). A failure that leaves
a context goes on to whatever is around it, through as many contexts as it takes to be caught. -/

namespace Lexeme

/-- What is done with the settings in a session, one thing after another. A failure ends the routine unless it comes
    in an attempt, which catches it. -/
inductive Routine where
  | done
  | set (config : Config) (rest : Routine)
  | reset (rest : Routine)
  | fail
  | within (config : Config) (body rest : Routine)
  | attempt (body rest : Routine)
deriving DecidableEq, Repr

namespace Routine

/-- A failure leaves the routine. -/
def fails : Routine → Bool
  | done => false
  | set _ rest => rest.fails
  | reset rest => rest.fails
  | fail => true
  | within _ body rest => body.fails || rest.fails
  | attempt _ rest => rest.fails

/-- The settings that are made active on the level of a routine, in order, up to a failure that leaves it. What
    happens in a context is on a level of its own. -/
def settings : Routine → List Config
  | done => []
  | set config rest => config :: rest.settings
  | reset rest => {} :: rest.settings
  | fail => []
  | within _ body rest => if body.fails then [] else rest.settings
  | attempt body rest => body.settings ++ rest.settings

/-- The settings after a routine, by those before it: the ones set last on its level. -/
def leaves (r : Routine) (before : Config) : Config :=
  r.settings.getLast?.getD before

section
variable (before config : Config) (body rest : Routine)

@[simp] theorem leaves_set : (set config rest).leaves before = rest.leaves config := by
  simp [leaves, settings, List.getLast?_cons]

@[simp] theorem leaves_reset : (reset rest).leaves before = rest.leaves {} := by
  simp [leaves, settings, List.getLast?_cons]

@[simp] theorem leaves_within :
    (within config body rest).leaves before = if body.fails then before else rest.leaves before := by
  simp only [leaves, settings]
  split <;> rfl

@[simp] theorem leaves_attempt : (attempt body rest).leaves before = rest.leaves (body.leaves before) := by
  simp only [leaves, settings, List.getLast?_append]
  cases rest.settings.getLast? <;> rfl

end

end Routine

/-- An answer to the leaving of a context that holds back the failure which leaves it. -/
def Answer.holdsBack : Answer → Bool
  | truth b => b
  | _ => false

/-- What comes of a routine: the session after it, and whether a failure leaves it. -/
structure Performed where
  session : Session
  failed : Bool

namespace Session

/-- Performs a routine by commands. A context is left in either case, and a failure goes on unless the answer to the
    leaving holds it back. -/
def perform (s : Session) : Routine → Performed
  | .done => ⟨s, false⟩
  | .set config rest => (s.step (.setConfig config)).next.perform rest
  | .reset rest => (s.step .resetConfig).next.perform rest
  | .fail => ⟨s, true⟩
  | .within config body rest =>
    let inside := (s.step (.enterConfig config)).next.perform body
    let left := inside.session.step (.leaveConfig inside.failed)
    if inside.failed && !left.answer.holdsBack then ⟨left.next, true⟩ else left.next.perform rest
  | .attempt body rest => (s.perform body).session.perform rest

/-- The session with other settings active. -/
def withActive (s : Session) (config : Config) : Session :=
  { s with config := { s.config with active := config } }

@[simp] theorem withActive_active (s : Session) : s.withActive s.config.active = s := rfl

@[simp] theorem withActive_withActive (s : Session) (first second : Config) :
    (s.withActive first).withActive second = s.withActive second := rfl

theorem next_setConfig (s : Session) (config : Config) : (s.step (.setConfig config)).next = s.withActive config := rfl

theorem next_resetConfig (s : Session) : (s.step .resetConfig).next = s.withActive {} := rfl

/-- Leaving a context undoes the entering of it, whatever is active by then. -/
theorem next_leaveConfig (s : Session) (config active : Config) (failing : Bool) :
    (((s.step (.enterConfig config)).next.withActive active).step (.leaveConfig failing)).next = s := rfl

theorem holdsBack_leaveConfig (s : Session) (failing : Bool) :
    (s.step (.leaveConfig failing)).answer.holdsBack = false := by
  cases failing <;> rfl

/-- A routine changes the active settings only, and fails as it is written. -/
theorem perform_eq (s : Session) (r : Routine) :
    s.perform r = ⟨s.withActive (r.leaves s.config.active), r.fails⟩ := by
  -- By induction on the nesting: what is done in a context leaves what it saved alone, so that leaving it puts back
  -- the settings of its own entering.
  induction r generalizing s with
  | done => rfl
  | fail => rfl
  | set config rest ih =>
    rw [perform, next_setConfig, ih, Routine.leaves_set]
    rfl
  | reset rest ih =>
    rw [perform, next_resetConfig, ih, Routine.leaves_reset]
    rfl
  | attempt body rest ihbody ihrest =>
    rw [perform, ihbody, ihrest, Routine.leaves_attempt]
    rfl
  | within config body rest ihbody ihrest =>
    rw [perform, ihbody]
    simp only [next_leaveConfig, holdsBack_leaveConfig, Bool.not_false, Bool.and_true, Routine.leaves_within,
      Routine.fails]
    cases hfails : body.fails with
    | true => simp
    | false => simp [ihrest]

/-- After a context the settings are as they were when it was entered, and what comes after it is done as if it had
    not been there, unless a failure leaves what is done in it: then that goes on. Inside, and on every level, the
    settings made active there last count; before any, those that the level began with, which are the context's own
    or, outside of all contexts, the defaults. -/
theorem contexts_nest (s : Session) (config : Config) (body rest routine : Routine) :
    (s.perform (.within config body .done)).session.config = s.config ∧
      s.perform (.within config body rest) = (if body.fails then ⟨s, true⟩ else s.perform rest) ∧
      ((s.step (.enterConfig config)).next.perform body).session.config.active =
        body.settings.getLast?.getD config ∧
      ((s.perform routine).session.config.saved = s.config.saved ∧
        (s.perform routine).session.config.active = routine.settings.getLast?.getD s.config.active ∧
        (s.perform routine).failed = routine.fails) ∧
      (perform {} routine).session.config.active = routine.settings.getLast?.getD {} := by
  have hwithin : ∀ rest, s.perform (.within config body rest) = if body.fails then ⟨s, true⟩ else s.perform rest := by
    intro rest
    simp only [perform_eq, Routine.leaves_within, Routine.fails]
    cases body.fails <;> rfl
  refine ⟨?_, hwithin rest, ?_, ⟨?_, ?_, ?_⟩, ?_⟩
  · rw [hwithin]
    split <;> rfl
  · rw [perform_eq]
    rfl
  · rw [perform_eq]
    rfl
  · rw [perform_eq]
    rfl
  · rw [perform_eq]
  · rw [perform_eq]
    rfl

/-- A failure leaves two contexts at once and is caught behind the outer one. -/
example :
    (perform {} (.set { encoding := "ascii" } (.attempt
      (.within {} (.set { encoding := "latin-1" } (.within { flushOnError := false } (.reset .fail) (.reset .done)))
        (.reset .done)) .done))).session.config = ⟨{ encoding := "ascii" }, []⟩ :=
  rfl

end Session

end Lexeme
