import Lexeme.Source.Reader

/-! # Feeds

A feed is what is still to come of a source: the rest of a text, or a reader. Its delivery is what all
pulls together will give: the characters, then the reason why there are no more. One pull takes the first
character off the delivery (`delivery_next_item`), or shows its reason when no character is left
(`delivery_next_stop`), after which the feed is over for good. -/

namespace Lexeme

/-- The characters to come, and why there are no more after them. -/
structure Delivery where
  text : Text
  ending : Stop
deriving DecidableEq, Repr

namespace Delivery

def nothing : Delivery :=
  ⟨[], .finished⟩

/-- A delivery with more characters before it. -/
def after (d : Delivery) (earlier : Text) : Delivery :=
  ⟨earlier ++ d.text, d.ending⟩

theorem after_nil (d : Delivery) : d.after [] = d := rfl

/-- What comes of the end of the reading of a source. -/
def ofResult (source : String) : Except Failure Text → Delivery
  | .ok text => ⟨text, .finished⟩
  | .error failure => ⟨[], .ofFailure source failure⟩

/-- What comes of the reads of a source, given the codec. -/
def ofScript (source : String) (c : Codec) : List Read → Delivery
  | [] => ofResult source (Read.closing c)
  | read :: rest =>
    match read.outcome c with
    | .last result => ofResult source result
    | .more text c => (ofScript source c rest).after text

end Delivery

namespace Reader

def delivery (r : Reader) : Delivery :=
  match r.stage with
  | .ended => .nothing
  | .draining _ pending => ⟨pending, .finished⟩
  | .reading c _ pending => (Delivery.ofScript r.name c r.script).after pending
  | .unopened =>
    match r.codecs.find r.encoding r.errors with
    | .ok c => .ofScript r.name c r.script
    | .error failure => ⟨[], .interrupted failure⟩

section
variable {r r' : Reader} {c c' : Codec} {text : Text} {result : Except Failure Text} {reply : Reply Reader Char}

theorem ofScript_of_more (ho : r.read.outcome c = .more text c') :
    Delivery.ofScript r.name c r.script = (Delivery.ofScript r.name c' r.script.tail).after text := by
  rw [script_of_more ho, Delivery.ofScript, ho]
  rfl

theorem ofScript_of_last (ho : r.read.outcome c = .last result) :
    Delivery.ofScript r.name c r.script = .ofResult r.name result := by
  rcases r.script_cases with hscript | ⟨hscript, hread⟩
  · rw [hscript, Delivery.ofScript, ho]
  · rw [hread] at ho
    cases ho
    rw [hscript, Delivery.ofScript]

/-- What is to come stays to come in a turn. -/
theorem Turn.delivery (h : Turn r r') : r'.delivery = r.delivery := by
  cases h with
  | finds hs hfind => simp [Reader.delivery, hs, hfind, Delivery.after_nil]
  | reads hs ho => simp [Reader.delivery, hs, readOn, ofScript_of_more ho, Delivery.after_nil]
  | ends hs ho => simp [Reader.delivery, hs, readOn, ofScript_of_last ho, Delivery.after_nil, Delivery.ofResult]

/-- What a reply says about the delivery it was taken from: an item is its first character; a reason is the
    reason of an empty one, after which nothing comes. -/
def Explains (reply : Reply Reader Char) (d : Delivery) : Prop :=
  match reply.pull with
  | .item c => d = reply.next.delivery.after [c]
  | .stop s => d = ⟨[], s⟩ ∧ reply.next.delivery = .nothing

theorem Settles.explains (h : Settles r reply) : Explains reply r.delivery := by
  cases h with
  | serves hs => simp [Explains, Reader.delivery, hs, Delivery.after]
  | drains hs => simp [Explains, Reader.delivery, hs, Delivery.after]
  | finishes hs => simp [Explains, Reader.delivery, hs, Delivery.nothing]
  | fails hs ho =>
    simp [Explains, Reader.delivery, hs, readOn, ofScript_of_last ho, Delivery.after_nil, Delivery.ofResult,
      Delivery.nothing]
  | refuses hs hfind => simp [Explains, Reader.delivery, hs, hfind, Delivery.nothing]
  | rests hs => simp [Explains, Reader.delivery, hs, Delivery.nothing]

/-- Every reply of a reader explains the delivery of the reader. -/
theorem explains_next (r : Reader) : Explains r.next r.delivery := by
  have hreplies := r.replies_next
  generalize r.next = reply at hreplies
  induction hreplies with
  | settles h => exact h.explains
  | turn h _ ih => rwa [← h.delivery]

end

end Reader

inductive Feed where
  | memory (rest : Text)
  | reader (r : Reader)

namespace Feed

def next : Feed → Reply Feed Char
  | memory [] => ⟨.stop .finished, [], memory []⟩
  | memory (c :: rest) => ⟨.item c, [], memory rest⟩
  | reader r => r.next.map reader id

/-- What all pulls together will give. -/
def delivery : Feed → Delivery
  | memory rest => ⟨rest, .finished⟩
  | reader r => r.delivery

/-- The number of reads made, where there is something to read from. -/
def reads? : Feed → Option Nat
  | memory _ => none
  | reader r => some r.reads

/-- Closes what is read from, if anything is. -/
def close (message : String) : Feed → Feed
  | memory rest => memory rest
  | reader r => reader (r.close message)

/-- A pull that gives a character takes it off the delivery. -/
theorem delivery_next_item {f : Feed} {c : Char} (h : f.next.pull = .item c) :
    f.delivery = f.next.next.delivery.after [c] := by
  cases f with
  | memory rest =>
    cases rest with
    | nil => simp [next] at h
    | cons d rest => simp_all [next, delivery, Delivery.after]
  | reader r =>
    have hr := r.explains_next
    simp only [next, Reply.map] at h
    cases hp : r.next.pull with
    | item d =>
      simp only [hp, Pull.map, id, Pull.item.injEq] at h
      subst h
      simpa [Reader.Explains, hp, next, delivery, Reply.map] using hr
    | stop s => simp [hp, Pull.map] at h

/-- A pull that gives none shows that the delivery is empty, and its reason; then nothing comes. -/
theorem delivery_next_stop {f : Feed} {s : Stop} (h : f.next.pull = .stop s) :
    f.delivery = ⟨[], s⟩ ∧ f.next.next.delivery = .nothing := by
  cases f with
  | memory rest =>
    cases rest with
    | nil => simp_all [next, delivery, Delivery.nothing]
    | cons d rest => simp [next] at h
  | reader r =>
    have hr := r.explains_next
    simp only [next, Reply.map] at h
    cases hp : r.next.pull with
    | item d => simp [hp, Pull.map] at h
    | stop s' =>
      simp only [hp, Pull.map, Pull.stop.injEq] at h
      subst h
      simpa [Reader.Explains, hp, next, delivery, Reply.map] using hr

end Feed
end Lexeme
