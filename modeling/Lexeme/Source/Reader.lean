import Lexeme.Codec
import Lexeme.Source.Pull

/-! # Readers

A reader delivers its input in reads: octets, text that needs no decoding, or a failure. An empty read ends
the input. What a reader will deliver is written down as a script; after the script every read is empty.

Characters are served one at a time, and no read is made before it is needed: the characters of one read
are served before the next read, and a read that decodes to nothing is followed by another within the same
pull. Octets pass through a codec, which may keep an incomplete end; an empty read of octets makes it give
up what it keeps, an empty read of text does not. After the end, or after any failure, nothing is read.

All that a pull can come to is said once, by `Reader.replies_next`: some turns that give nothing, and a reply. -/

namespace Lexeme

inductive Read where
  | octets (piece : List Octet)
  | text (piece : Text)
  | failure (fault : Fault) (message : String)
deriving DecidableEq, Repr

/-- What a read comes to: more input, or its end, good or bad. -/
inductive ReadOutcome where
  | more (text : Text) (codec : Codec)
  | last (result : Except Failure Text)

namespace Read

/-- The empty read of octets: what a codec gives up at the end of the input. -/
def closing (c : Codec) : Except Failure Text :=
  (c.decode [] true).map (·.1)

/-- What a read comes to, given the codec. -/
def outcome (c : Codec) : Read → ReadOutcome
  | failure fault message => .last (.error (.reported fault message))
  | text [] => .last (.ok [])
  | text (first :: rest) => .more (first :: rest) c
  | octets [] => .last (closing c)
  | octets (b :: rest) =>
    match c.decode (b :: rest) false with
    | .ok (decoded, c) => .more decoded c
    | .error cause => .last (.error cause)

end Read

/-- How far the reading of a reader has come: not begun; reading, with the codec, the number of good reads
    and the characters not served yet; serving the last characters; or ended. -/
inductive ReaderStage where
  | unopened
  | reading (codec : Codec) (lines : Nat) (pending : Text)
  | draining (lines : Nat) (pending : Text)
  | ended

/-- A reader: the name of its source, the codecs it knows, the names of the encoding and of the handler, the
    reads to come, the number of reads made, and how far it has come. -/
structure Reader where
  name : String
  codecs : Codecs
  encoding : String
  errors : String
  script : List Read
  reads : Nat := 0
  stage : ReaderStage := .unopened

namespace Reader

/-- Serves the last characters, and then the end, which is reported. -/
def serveLast (r : Reader) (lines : Nat) : Text → Reply Reader Char
  | c :: rest => ⟨.item c, [], { r with stage := .draining lines rest }⟩
  | [] => ⟨.stop .finished, [.exhausted r.name lines], { r with stage := .ended }⟩

/-- Ends the reading: a failure of reading is reported and becomes an error of the source, any other passes
    through. -/
def conclude (r : Reader) (lines : Nat) : Except Failure Text → Reply Reader Char
  | .ok text => r.serveLast lines text
  | .error failure =>
    let stop := Stop.ofFailure r.name failure
    ⟨.stop stop, stop.report r.name lines, { r with stage := .ended }⟩

/-- Reads until there is a character to serve, or the end. -/
def fetch (r : Reader) (c : Codec) (lines reads : Nat) : List Read → Reply Reader Char
  | [] => { r with script := [], reads := reads + 1 }.conclude lines (Read.closing c)
  | read :: rest =>
    match read.outcome c with
    | .last result => { r with script := rest, reads := reads + 1 }.conclude lines result
    | .more [] c => r.fetch c (lines + 1) (reads + 1) rest
    | .more (first :: text) c =>
      ⟨.item first, [], { r with script := rest, reads := reads + 1, stage := .reading c (lines + 1) text }⟩

/-- Pulls one character. The codec is looked up by the first pull, before any read; that there is none passes
    through, whatever the reason. -/
def next (r : Reader) : Reply Reader Char :=
  match r.stage with
  | .ended => ⟨.stop .finished, [], r⟩
  | .draining lines pending => r.serveLast lines pending
  | .reading c lines (first :: rest) => ⟨.item first, [], { r with stage := .reading c lines rest }⟩
  | .reading c lines [] => r.fetch c lines r.reads r.script
  | .unopened =>
    match r.codecs.find r.encoding r.errors with
    | .ok c => r.fetch c 0 r.reads r.script
    | .error failure => ⟨.stop (.interrupted failure), [], { r with stage := .ended }⟩

/-- Closes what a reader reads from: every read to come fails with a message. -/
def close (r : Reader) (message : String) : Reader :=
  { r with script := [.failure .value message] }

/-! ### What a pull can come to -/

/-- The read to come. After a script every read is empty. -/
def read (r : Reader) : Read :=
  r.script.headD (.octets [])

theorem script_cases (r : Reader) : r.script = r.read :: r.script.tail ∨ r.script = [] ∧ r.read = .octets [] := by
  unfold read
  cases r.script with
  | nil => exact Or.inr ⟨rfl, rfl⟩
  | cons read rest => exact Or.inl rfl

/-- A read that is not the last is one of the script. -/
theorem script_of_more {r : Reader} {c c' : Codec} {text : Text} (ho : r.read.outcome c = .more text c') :
    r.script = r.read :: r.script.tail := by
  rcases r.script_cases with hscript | ⟨-, hread⟩
  · exact hscript
  · rw [hread] at ho
    cases ho

/-- The reader at a stage after one more read. -/
def readOn (r : Reader) (stage : ReaderStage) : Reader :=
  { r with script := r.script.tail, reads := r.reads + 1, stage }

/-- A turn of a reader that gives nothing by itself: it finds its codec, or makes a read. -/
inductive Turn (r : Reader) : Reader → Prop
  | finds {c : Codec} : r.stage = .unopened → r.codecs.find r.encoding r.errors = .ok c →
      Turn r { r with stage := .reading c 0 [] }
  | reads {c c' : Codec} {lines : Nat} {text : Text} : r.stage = .reading c lines [] →
      r.read.outcome c = .more text c' → Turn r (r.readOn (.reading c' (lines + 1) text))
  | ends {c : Codec} {lines : Nat} {text : Text} : r.stage = .reading c lines [] →
      r.read.outcome c = .last (.ok text) → Turn r (r.readOn (.draining lines text))

/-- The reply of a reader that needs no turn before it. -/
inductive Settles (r : Reader) : Reply Reader Char → Prop
  | serves {c : Codec} {lines : Nat} {first : Char} {rest : Text} : r.stage = .reading c lines (first :: rest) →
      Settles r ⟨.item first, [], { r with stage := .reading c lines rest }⟩
  | drains {lines : Nat} {first : Char} {rest : Text} : r.stage = .draining lines (first :: rest) →
      Settles r ⟨.item first, [], { r with stage := .draining lines rest }⟩
  | finishes {lines : Nat} : r.stage = .draining lines [] →
      Settles r ⟨.stop .finished, [.exhausted r.name lines], { r with stage := .ended }⟩
  | fails {c : Codec} {lines : Nat} {failure : Failure} : r.stage = .reading c lines [] →
      r.read.outcome c = .last (.error failure) →
      Settles r ⟨.stop (.ofFailure r.name failure), (Stop.ofFailure r.name failure).report r.name lines,
        r.readOn .ended⟩
  | refuses {failure : Failure} : r.stage = .unopened → r.codecs.find r.encoding r.errors = .error failure →
      Settles r ⟨.stop (.interrupted failure), [], { r with stage := .ended }⟩
  | rests : r.stage = .ended → Settles r ⟨.stop .finished, [], r⟩

/-- What a reader replies to a pull, after some turns. -/
inductive Replies : Reader → Reply Reader Char → Prop
  | settles {r : Reader} {reply : Reply Reader Char} : Settles r reply → Replies r reply
  | turn {r r' : Reader} {reply : Reply Reader Char} : Turn r r' → Replies r' reply → Replies r reply

theorem replies_serveLast {r : Reader} {lines : Nat} {text : Text} (hs : r.stage = .draining lines text) :
    Replies r (r.serveLast lines text) := by
  cases text with
  | nil => exact .settles (.finishes hs)
  | cons c rest => exact .settles (.drains hs)

theorem replies_conclude {r : Reader} {c : Codec} {lines : Nat} {result : Except Failure Text}
    (hs : r.stage = .reading c lines []) (ho : r.read.outcome c = .last result) :
    Replies r ((r.readOn .ended).conclude lines result) := by
  cases result with
  | error failure => exact .settles (.fails hs ho)
  | ok text =>
    refine .turn (.ends hs ho) ?_
    have hlast := replies_serveLast (r := r.readOn (.draining lines text)) rfl
    cases text <;> exact hlast

/-- By induction on the script: a read that decodes to nothing is a turn after which the rest is fetched. -/
theorem replies_fetch (r : Reader) (c : Codec) (lines reads : Nat) (script : List Read) :
    Replies { r with script, reads, stage := .reading c lines [] } (r.fetch c lines reads script) := by
  induction script generalizing c lines reads with
  | nil =>
    have hclosing : (Read.octets []).outcome c = .last (Read.closing c) := rfl
    have hlast := replies_conclude (r := { r with script := [], reads, stage := .reading c lines [] }) rfl hclosing
    simp only [fetch]
    cases hresult : Read.closing c <;> rw [hresult] at hlast <;> exact hlast
  | cons read rest ih =>
    cases ho : read.outcome c with
    | last result =>
      have hlast :=
        replies_conclude (r := { r with script := read :: rest, reads, stage := .reading c lines [] }) rfl ho
      simp only [fetch, ho]
      cases result <;> exact hlast
    | more text c' =>
      refine .turn (.reads rfl ho) ?_
      cases text with
      | nil =>
        simp only [fetch, ho]
        exact ih c' (lines + 1) (reads + 1)
      | cons first text =>
        simp only [fetch, ho]
        exact .settles (.serves rfl)

theorem replies_next (r : Reader) : Replies r r.next := by
  have hreading : ∀ {c lines}, r.stage = .reading c lines [] → Replies r (r.fetch c lines r.reads r.script) := by
    intro c lines hs
    have hfetch := replies_fetch r c lines r.reads r.script
    rwa [← hs] at hfetch
  cases hs : r.stage with
  | ended =>
    simp only [next, hs]
    exact .settles (.rests hs)
  | draining lines pending =>
    simp only [next, hs]
    exact replies_serveLast hs
  | reading c lines pending =>
    cases pending with
    | nil =>
      simp only [next, hs]
      exact hreading hs
    | cons first rest =>
      simp only [next, hs]
      exact .settles (.serves hs)
  | unopened =>
    cases hfind : r.codecs.find r.encoding r.errors with
    | ok c =>
      simp only [next, hs, hfind]
      exact .turn (.finds hs hfind) (replies_fetch r c 0 r.reads r.script)
    | error failure =>
      simp only [next, hs, hfind]
      exact .settles (.refuses hs hfind)

end Reader
end Lexeme
