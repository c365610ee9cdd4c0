import Lexeme.Encoding.Handler
import Lexeme.Encoding.Name

/-! # Decoding piece by piece

A decoder takes the octets of a source in pieces, keeps what is incomplete at the end of a piece, and puts
it before the next. A piece decodes as a whole or not at all. Positions in failures count from the first
kept octet. The last piece is marked as final: then nothing is kept. A handler without a name decodes
nothing, not even what is well formed.

Marked UTF-16 has to find its byte order first. As long as no mark has come, what is there is decoded as
little-endian, so that what is wrong with it shows first; if that takes two octets or more, the mark is
missing. -/

namespace Lexeme.Encoding

/-- The state between two pieces: the form and what is kept, or what is kept while the mark is awaited. -/
inductive Decoder where
  | ready (form : Form) (kept : List Octet)
  | unmarked (kept : List Octet)
deriving DecidableEq, Repr

/-- Decodes octets after the kept ones, whose first lies at a position, to a text and what is kept. -/
def Form.decode (f : Form) (h : Handler) (position : Nat) (kept piece : List Octet) (final : Bool) :
    Except Failure (Text × List Octet) :=
  let settled := h.scan f kept piece
  if final then do
    let text ← h.resolve f position (settled.fragments ++ h.finish f settled.kept)
    return (text, [])
  else do
    let text ← h.resolve f position settled.fragments
    return (text, settled.kept)

theorem Form.failsOnly_decode {P : Failure → Prop} {h : Handler} {form : Form}
    (hh : ∀ position reason octets, FailsOnly P (h.handle form position reason octets)) (position : Nat)
    (kept piece : List Octet) (final : Bool) : FailsOnly P (form.decode h position kept piece final) := by
  unfold Form.decode
  dsimp only
  split
  · exact (Handler.failsOnly_resolve hh _ _).bind fun text => failsOnly_ok _
  · exact (Handler.failsOnly_resolve hh _ _).bind fun text => failsOnly_ok _

/-- A mark at the beginning of octets: the order it announces and the octets after it. -/
def splitMark? : List Octet → Option (ByteOrder × List Octet)
  | 0xff :: 0xfe :: rest => some (.little, rest)
  | 0xfe :: 0xff :: rest => some (.big, rest)
  | _ => none

namespace Decoder

def ofEncoding : Encoding → Decoder
  | .fixed form => ready form []
  | .markedUtf16 => unmarked []

def decode (d : Decoder) (h : Handler) (piece : List Octet) (final : Bool) :
    Except Failure (Text × Decoder) :=
  if h = .nameless then .error .nulInName
  else
    match d with
    | ready form kept => do
      let (text, kept) ← form.decode h 0 kept piece final
      return (text, ready form kept)
    | unmarked kept =>
      let octets := kept ++ piece
      match splitMark? octets with
      | some (order, rest) => do
        let (text, kept) ← (Form.utf16 order).decode h 2 [] rest final
        return (text, ready (.utf16 order) kept)
      | none => do
        let (text, kept) ← (Form.utf16 .little).decode h 0 [] octets final
        if 2 ≤ octets.length - kept.length then throw .missingMark
        return (text, unmarked kept)

/-- A decoder fails as its handler does, for want of a mark, or because the handler has no name. -/
theorem failsOnly_decode {P : Failure → Prop} {h : Handler}
    (hh : ∀ form position reason octets, FailsOnly P (h.handle form position reason octets)) (hmark : P .missingMark)
    (hname : h = .nameless → P .nulInName) (d : Decoder) (piece : List Octet) (final : Bool) :
    FailsOnly P (d.decode h piece final) := by
  unfold Decoder.decode
  split
  · exact failsOnly_error (hname ‹_›)
  · cases d with
    | ready form kept => exact (Form.failsOnly_decode (hh form) _ _ _ _).bind fun decoded => failsOnly_ok _
    | unmarked kept =>
      dsimp only
      split
      · exact (Form.failsOnly_decode (hh _) _ _ _ _).bind fun decoded => failsOnly_ok _
      · refine (Form.failsOnly_decode (hh _) _ _ _ _).bind fun decoded => ?_
        split
        · exact (failsOnly_error (α := PUnit) hmark).bind fun _ => failsOnly_ok _
        · exact failsOnly_ok _

theorem ne_emptyWord_of_decode (d : Decoder) (h : Handler) (piece : List Octet) (final : Bool) :
    FailsOnly (· ≠ .emptyWord) (d.decode h piece final) :=
  failsOnly_decode h.ne_emptyWord_of_handle Failure.noConfusion (fun _ => Failure.noConfusion) d piece final

end Decoder
end Lexeme.Encoding
