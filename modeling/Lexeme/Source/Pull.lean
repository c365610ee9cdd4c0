import Lexeme.Log

/-! # Pulling

An iterator is pulled for one item after another. A pull gives an item, or says why it gives none: the end,
a read error, or a failure that is none of the iterator's concern and passes through it. Only the first is
final by its nature. -/

namespace Lexeme

universe u v

/-- Why a pull gives no item. -/
inductive Stop where
  | finished
  | failed (error : ReadError)
  | interrupted (failure : Failure)
deriving DecidableEq, Repr

namespace Stop

/-- How the reading of a source ends with a failure: as an error of reading, or by passing through. -/
def ofFailure (source : String) (failure : Failure) : Stop :=
  if failure.isReadFailure then .failed ⟨source, failure⟩ else .interrupted failure

theorem ofFailure_eq_failed {source : String} {failure : Failure} {error : ReadError} :
    ofFailure source failure = .failed error ↔ failure.isReadFailure ∧ error = ⟨source, failure⟩ := by
  unfold ofFailure
  split
  · rename_i hfailure
    simp [hfailure, eq_comm]
  · rename_i hfailure
    simp [hfailure]

theorem ofFailure_eq_interrupted {source : String} {failure cause : Failure} :
    ofFailure source failure = .interrupted cause ↔ failure.isReadFailure = false ∧ failure = cause := by
  unfold ofFailure
  split
  · rename_i hfailure
    simp [hfailure]
  · rename_i hfailure
    simp [hfailure]

/-- What is reported of why a source stops, after a number of good reads. -/
def report (source : String) (lines : Nat) : Stop → List LogEvent
  | finished => [.exhausted source lines]
  | failed _ => [.readFailed source lines]
  | interrupted _ => []

end Stop

inductive Pull (α : Type) where
  | item (a : α)
  | stop (s : Stop)
deriving DecidableEq, Repr

namespace Pull

def item? {α : Type} : Pull α → Option α
  | item a => some a
  | stop _ => none

def map {α β : Type} (f : α → β) : Pull α → Pull β
  | item a => item (f a)
  | stop s => stop s

end Pull

/-- What an iterator in state `σ` replies to a pull: what the pull gives, what is reported meanwhile, and
    the state after it. -/
structure Reply (σ : Type u) (α : Type) where
  pull : Pull α
  log : List LogEvent
  next : σ

namespace Reply

variable {σ : Type u} {τ : Type v} {α β : Type}

def after (r : Reply σ α) (earlier : List LogEvent) : Reply σ α :=
  { r with log := earlier ++ r.log }

/-- The reply of an iterator that is made from another. -/
def map (state : σ → τ) (item : α → β) (r : Reply σ α) : Reply τ β :=
  ⟨r.pull.map item, r.log, state r.next⟩

end Reply

/-- The replies to a number of pulls, one after another. -/
def pullWith {σ : Type u} {α : Type} (next : σ → Reply σ α) : Nat → σ → List (Reply σ α)
  | 0, _ => []
  | count + 1, state =>
    let reply := next state
    reply :: pullWith next count reply.next

/-- The state that an iterator is in after its replies. -/
def Reply.lastState {σ : Type u} {α : Type} (state : σ) (replies : List (Reply σ α)) : σ :=
  (replies.getLast?.map (·.next)).getD state

/-- The replies to pull after pull, up to the first that says the end, and `budget` at most. -/
def drainWith {σ : Type u} {α : Type} (next : σ → Reply σ α) : Nat → σ → List (Reply σ α)
  | 0, _ => []
  | budget + 1, state =>
    let reply := next state
    match reply.pull with
    | .stop .finished => [reply]
    | _ => reply :: drainWith next budget reply.next

end Lexeme
