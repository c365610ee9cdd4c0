import Lexeme.Proofs.Serving

/-! # Failures of reading

What a reader may fail with comes from a read, from its codec or from the want of one. None of it is the refusal
of an empty word, which only a stream could meet. -/

namespace Lexeme

theorem Read.ne_emptyWord_of_outcome {c : Codec} {read : Read} {result : Except Failure Text}
    (ho : read.outcome c = .last result) : FailsOnly (· ≠ .emptyWord) result := by
  cases read with
  | failure fault message => cases ho; exact failsOnly_error Failure.noConfusion
  | text piece =>
    cases piece with
    | nil => cases ho; exact failsOnly_ok []
    | cons first rest => cases ho
  | octets piece =>
    cases piece with
    | nil => cases ho; exact (c.ne_emptyWord_of_decode [] true).map _
    | cons b rest =>
      have hd := c.ne_emptyWord_of_decode (b :: rest) false
      unfold outcome at ho
      dsimp only at ho
      split at ho
      · cases ho
      · rename_i cause hr
        cases ho
        exact failsOnly_error (hd cause hr)

theorem Reader.Settles.ne_emptyWord {r : Reader} {reply : Reply Reader Char} (h : Settles r reply) {stop : Stop}
    (hpull : reply.pull = .stop stop) : stop ≠ .interrupted .emptyWord := by
  rintro rfl
  cases h with
  | serves | drains | finishes | rests => cases hpull
  | fails _ ho =>
    obtain ⟨-, rfl⟩ := Stop.ofFailure_eq_interrupted.mp (Pull.stop.inj hpull)
    exact Read.ne_emptyWord_of_outcome ho _ rfl rfl
  | refuses _ hfind =>
    cases hpull
    exact r.codecs.ne_emptyWord_of_find r.encoding r.errors _ hfind rfl

theorem Feed.ne_emptyWord_of_stop {f : Feed} {stop : Stop} (h : f.next.pull = .stop stop) :
    stop ≠ .interrupted .emptyWord := by
  cases f with
  | memory rest =>
    cases rest with
    | nil => cases h; exact Stop.noConfusion
    | cons c rest => cases h
  | reader r =>
    obtain ⟨last, hlast⟩ := r.replies_next.settled
    simp only [next, Reply.map] at h
    cases hp : r.next.pull with
    | item c => rw [hp] at h; cases h
    | stop reason =>
      rw [hp] at h
      cases h
      exact hlast.ne_emptyWord hp

end Lexeme
