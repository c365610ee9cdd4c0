import Lexeme.Encoding.Decoder

/-! # Codecs

A reader does not know what octets mean: it has a codec, which takes them in pieces, and makes a text of each
piece or fails. What a codec remembers from one piece to the next is its own affair, so that any way to decode
piece by piece is a codec, as long as it gives texts: no lone surrogates.

Codecs are known by the name of an encoding and that of a handler for malformed octets. Which of them are known,
and by what names, is open as well (`Codecs`). The standard ones are those of the six encodings described here
(`Codecs.standard`), with U+FFFD where two of the handlers would put surrogates. What is said of readers holds with
any others in their place, unless it names these. -/

namespace Lexeme

/-- A codec between two pieces: what it remembers, and what it makes of a piece, which may be the final one. That
    words are empty is for streams to refuse. -/
structure Codec where
  Memory : Type
  memory : Memory
  step : Memory → List Octet → Bool → Except Failure (Text × Memory)
  ne_emptyWord_of_step : ∀ memory piece final, FailsOnly (· ≠ .emptyWord) (step memory piece final)

namespace Codec

/-- What a codec makes of a piece, and the codec after it. -/
def decode (c : Codec) (piece : List Octet) (final : Bool) : Except Failure (Text × Codec) :=
  (c.step c.memory piece final).map fun r => (r.1, { c with memory := r.2 })

theorem ne_emptyWord_of_decode (c : Codec) (piece : List Octet) (final : Bool) :
    FailsOnly (· ≠ .emptyWord) (c.decode piece final) :=
  (c.ne_emptyWord_of_step c.memory piece final).map _

/-- One of the decoders described here, with a handler. -/
def ofDecoder (h : Encoding.Handler) (d : Encoding.Decoder) : Codec where
  Memory := Encoding.Decoder
  memory := d
  step d piece final := d.decode h piece final
  ne_emptyWord_of_step d piece final := d.ne_emptyWord_of_decode h piece final

theorem decode_ofDecoder (h : Encoding.Handler) (d : Encoding.Decoder) (piece : List Octet) (final : Bool) :
    (ofDecoder h d).decode piece final = (d.decode h piece final).map fun r => (r.1, ofDecoder h r.2) :=
  rfl

section
variable {h : Encoding.Handler} {d : Encoding.Decoder} {c : Codec} {piece : List Octet} {final : Bool} {t : Text}
  {failure : Failure}

theorem decode_ofDecoder_eq_ok : (ofDecoder h d).decode piece final = .ok (t, c) ↔
    ∃ e, d.decode h piece final = .ok (t, e) ∧ c = ofDecoder h e := by
  rw [decode_ofDecoder]
  cases d.decode h piece final with
  | error failure => exact ⟨fun ht => (by cases ht), fun ⟨_, ht, _⟩ => (by cases ht)⟩
  | ok decoded =>
    constructor
    · intro ht
      cases ht
      exact ⟨decoded.2, rfl, rfl⟩
    · rintro ⟨e, ht, rfl⟩
      cases ht
      rfl

theorem decode_ofDecoder_eq_error :
    (ofDecoder h d).decode piece final = .error failure ↔ d.decode h piece final = .error failure := by
  rw [decode_ofDecoder]
  cases d.decode h piece final with
  | error cause => exact ⟨fun he => (by cases he; rfl), fun he => (by cases he; rfl)⟩
  | ok decoded => exact ⟨fun he => (by cases he), fun he => (by cases he)⟩

end

end Codec

/-- The codecs that are known: which one the names of an encoding and of a handler mean, or why they mean none. -/
structure Codecs where
  find : (encoding errors : String) → Except Failure Codec
  ne_emptyWord_of_find : ∀ encoding errors, FailsOnly (· ≠ .emptyWord) (find encoding errors)

namespace Codecs

/-- The codecs of the six encodings, by all their names. -/
def standard : Codecs where
  find encoding errors :=
    (Encoding.find encoding).map fun found => .ofDecoder (.ofName errors) (.ofEncoding found)
  ne_emptyWord_of_find encoding _ := (Encoding.ne_emptyWord_of_find encoding).map _

theorem find_standard {encoding : String} {found : Encoding} (h : Encoding.find encoding = .ok found)
    (errors : String) : standard.find encoding errors = .ok (.ofDecoder (.ofName errors) (.ofEncoding found)) := by
  simp only [standard, h]
  rfl

end Codecs
end Lexeme
