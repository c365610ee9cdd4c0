import Lexeme.Proofs.Partition

/-! # What the reads of a reader come to

Reads decode to a text and leave a codec behind (`Read.Decodes`). The delivery of a reader is what its reads
decode to up to the one that ends the input or fails: so a read error has a read that it comes from
(`fails_of_delivery`). -/

namespace Lexeme

namespace Read

/-- Reads that are decoded to a text one after another, and the codec after them. -/
inductive Decodes : Codec → List Read → Text → Codec → Prop
  | nil (c : Codec) : Decodes c [] [] c
  | cons {c d e : Codec} {read : Read} {reads : List Read} {t u : Text} : read.outcome c = .more t d →
      Decodes d reads u e → Decodes c (read :: reads) (t ++ u) e

/-- Reads that are decoded to a text up to one that fails. After a script every read is empty. -/
def Fails (c : Codec) (script : List Read) (t : Text) (failure : Failure) : Prop :=
  ∃ before read after d, script ++ [.octets []] = before ++ read :: after ∧ Decodes c before t d ∧
    read.outcome d = .last (.error failure)

section
variable {c d : Codec} {read : Read} {script reads : List Read} {t u : Text} {failure : Failure}

theorem fails_of_last (ho : read.outcome c = .last (.error failure)) : Fails c (read :: script) [] failure :=
  ⟨[], read, script ++ [.octets []], c, rfl, .nil c, ho⟩

theorem fails_of_more (ho : read.outcome c = .more t d) (hf : Fails d script u failure) :
    Fails c (read :: script) (t ++ u) failure := by
  obtain ⟨before, bad, after, e, hscript, hbefore, hbad⟩ := hf
  exact ⟨read :: before, bad, after, e, congrArg (read :: ·) hscript, .cons ho hbefore, hbad⟩

end

end Read

namespace Delivery

theorem after_append (d : Delivery) (s t : Text) : (d.after t).after s = d.after (s ++ t) := by
  simp [after]

theorem ofScript_append {source : String} {c e : Codec} {before : List Read} {t : Text}
    (hd : Read.Decodes c before t e) (rest : List Read) :
    ofScript source c (before ++ rest) = (ofScript source e rest).after t := by
  induction hd with
  | nil c => rw [after_nil, List.nil_append]
  | cons ho _ ih => rw [List.cons_append, ofScript, ho, ← after_append, ← ih]

/-- One more empty read changes nothing: after a script every read is empty. -/
theorem ofScript_append_empty (source : String) (c : Codec) (script : List Read) :
    ofScript source c (script ++ [.octets []]) = ofScript source c script := by
  induction script generalizing c with
  | nil => rfl
  | cons read rest ih =>
    rw [List.cons_append, ofScript, ofScript]
    cases ho : read.outcome c with
    | last result => rfl
    | more t d => exact congrArg (Delivery.after · t) (ih d)

/-- A delivery that does not end well ends with what a read fails with. -/
theorem fails_of_ofScript {source : String} {c : Codec} {script : List Read} {t : Text} {stop : Stop}
    (hd : ofScript source c script = ⟨t, stop⟩) (hstop : stop ≠ .finished) :
    ∃ failure, stop = .ofFailure source failure ∧ Read.Fails c script t failure := by
  have hlast : ∀ {result : Except Failure Text} {t : Text}, ofResult source result = ⟨t, stop⟩ →
      ∃ failure, stop = .ofFailure source failure ∧ t = [] ∧ result = .error failure := by
    intro result t hr
    cases result with
    | ok text =>
      cases hr
      exact absurd rfl hstop
    | error failure =>
      cases hr
      exact ⟨failure, rfl, rfl, rfl⟩
  induction script generalizing c t with
  | nil =>
    obtain ⟨failure, hfailure, rfl, hclosing⟩ := hlast hd
    refine ⟨failure, hfailure, [], .octets [], [], c, rfl, .nil c, ?_⟩
    rw [Read.outcome, hclosing]
  | cons read rest ih =>
    cases ho : read.outcome c with
    | last result =>
      rw [ofScript, ho] at hd
      obtain ⟨failure, hfailure, rfl, rfl⟩ := hlast hd
      exact ⟨failure, hfailure, Read.fails_of_last ho⟩
    | more text d =>
      rw [ofScript, ho] at hd
      obtain ⟨rfl, hending⟩ := Delivery.mk.inj hd
      obtain ⟨failure, hfailure, hfails⟩ := ih (t := (ofScript source d rest).text) (by rw [← hending])
      exact ⟨failure, hfailure, Read.fails_of_more ho hfails⟩

theorem ofScript_of_fails (source : String) {c : Codec} {script : List Read} {t : Text} {failure : Failure}
    (hf : Read.Fails c script t failure) : ofScript source c script = ⟨t, .ofFailure source failure⟩ := by
  obtain ⟨before, read, after, d, hscript, hbefore, hread⟩ := hf
  rw [← ofScript_append_empty, hscript, ofScript_append hbefore, ofScript, hread]
  exact congrArg (Delivery.mk · _) (List.append_nil t)

end Delivery

namespace Reader

section
variable {r : Reader} {c d : Codec} {before after : List Read} {last : Read} {t : Text}

theorem delivery_of_find (hr : r.stage = .unopened) (hfind : r.codecs.find r.encoding r.errors = .ok c) :
    r.delivery = Delivery.ofScript r.name c r.script := by
  simp [delivery, hr, hfind]

/-- Reads that decode to a text, up to the last one, deliver the text and then what comes of that. -/
theorem delivery_of_last {result : Except Failure Text} (hr : r.stage = .unopened)
    (hfind : r.codecs.find r.encoding r.errors = .ok c) (hscript : r.script ++ [.octets []] = before ++ last :: after)
    (hbefore : Read.Decodes c before t d) (hlast : last.outcome d = .last result) :
    r.delivery = (Delivery.ofResult r.name result).after t := by
  rw [delivery_of_find hr hfind, ← Delivery.ofScript_append_empty, hscript, Delivery.ofScript_append hbefore,
    Delivery.ofScript, hlast]

/-- Reads that decode to a text, up to an empty one that gives nothing up, deliver the text. -/
theorem delivery_of_decodes (hr : r.stage = .unopened) (hfind : r.codecs.find r.encoding r.errors = .ok c)
    (hscript : r.script ++ [.octets []] = before ++ last :: after) (hbefore : Read.Decodes c before t d)
    (hlast : last.outcome d = .last (.ok [])) : r.delivery = ⟨t, .finished⟩ := by
  rw [delivery_of_last hr hfind hscript hbefore hlast]
  exact congrArg (Delivery.mk · _) (List.append_nil t)

/-- A read error of a reader that had not begun tells its name, and what failed in a read. -/
theorem fails_of_delivery {error : ReadError} (hr : r.stage = .unopened) (hd : r.delivery = ⟨t, .failed error⟩) :
    error.source = r.name ∧ error.cause.isReadFailure ∧ ∃ c, r.codecs.find r.encoding r.errors = .ok c ∧
      Read.Fails c r.script t error.cause := by
  cases hfind : r.codecs.find r.encoding r.errors with
  | ok c =>
    rw [delivery_of_find hr hfind] at hd
    obtain ⟨failure, hstop, hfails⟩ := Delivery.fails_of_ofScript hd Stop.noConfusion
    obtain ⟨hfailure, rfl⟩ := Stop.ofFailure_eq_failed.mp hstop.symm
    exact ⟨rfl, hfailure, c, rfl, hfails⟩
  | error failure =>
    simp only [delivery, hr, hfind] at hd
    cases hd

/-- What passes through a reader that had not begun is that it finds no codec, or a failure of a read that is
    none of reading. -/
theorem delivery_eq_interrupted {failure : Failure} (hr : r.stage = .unopened) :
    r.delivery = ⟨t, .interrupted failure⟩ ↔ t = [] ∧ r.codecs.find r.encoding r.errors = .error failure ∨
      failure.isReadFailure = false ∧ ∃ c, r.codecs.find r.encoding r.errors = .ok c ∧
        Read.Fails c r.script t failure := by
  cases hfind : r.codecs.find r.encoding r.errors with
  | ok c =>
    rw [delivery_of_find hr hfind]
    constructor
    · intro hd
      obtain ⟨cause, hstop, hfails⟩ := Delivery.fails_of_ofScript hd Stop.noConfusion
      obtain ⟨hfailure, rfl⟩ := Stop.ofFailure_eq_interrupted.mp hstop.symm
      exact Or.inr ⟨hfailure, c, rfl, hfails⟩
    · rintro (⟨-, hnone⟩ | ⟨hfailure, c', hc, hfails⟩)
      · cases hnone
      · cases hc
        rw [Delivery.ofScript_of_fails r.name hfails, Stop.ofFailure_eq_interrupted.mpr ⟨hfailure, rfl⟩]
  | error cause =>
    have hd : r.delivery = ⟨[], .interrupted cause⟩ := by simp only [delivery, hr, hfind]
    rw [hd]
    constructor
    · intro he
      cases he
      exact Or.inl ⟨rfl, rfl⟩
    · rintro (⟨rfl, hcause⟩ | ⟨-, c, hc, -⟩)
      · cases hcause
        rfl
      · cases hc

end

end Reader

namespace Source

/-- The reader that a source over a reader is made with. -/
def reader (codecs : Codecs) (name : String) (input : ReaderInput) (encoding errors : Option String)
    (making : Config) : Reader :=
  { name, codecs, encoding := nameOr encoding making.encoding, errors := nameOr errors making.decodeErrors
    script := input.reads }

theorem feed_of_opened {codecs : Codecs} {name : String} {input : ReaderInput} {encoding errors : Option String}
    {making opening : Config} {s : TokenStream} {rest : Source} {event : LogEvent}
    (h : TokenStream.ofSource (ofReader codecs name input encoding errors making) opening = .ok (s, rest, event)) :
    s.chars.feed = .reader (reader codecs name input encoding errors making) := by
  obtain ⟨-, hunread, -⟩ := TokenStream.ofSource_eq_ok h
  exact (Option.some.inj hunread).symm

end Source

end Lexeme
