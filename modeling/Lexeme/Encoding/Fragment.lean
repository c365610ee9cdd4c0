import Lexeme.Text

/-! # Fragments

Decoding cuts octets into fragments: the octets of one character, or octets that make no character, with
the reason. Every octet belongs to one fragment, or is kept until the octets after it are known. -/

namespace Lexeme

abbrev Octet := UInt8

namespace Encoding

inductive Malformation where
  | invalidStart
  | invalidContinuation
  | unexpectedEnd
  | outOfRange
  | loneSurrogate
  | unpairedSurrogate
  | truncated
deriving DecidableEq, Repr

def Malformation.message : Malformation → String
  | .invalidStart => "invalid start byte"
  | .invalidContinuation => "invalid continuation byte"
  | .unexpectedEnd => "unexpected end of data"
  | .outOfRange => "ordinal not in range(128)"
  | .loneSurrogate => "illegal encoding"
  | .unpairedSurrogate => "illegal UTF-16 surrogate"
  | .truncated => "truncated data"

/-- A piece of encoded text that is decoded as a whole. -/
inductive Fragment where
  | char (c : Char) (octets : List Octet)
  | malformed (reason : Malformation) (octets : List Octet)
deriving DecidableEq, Repr

def Fragment.octets : Fragment → List Octet
  | .char _ octets => octets
  | .malformed _ octets => octets

/-- What an octet settles: the fragments that end with it or just before it, and the octets kept for
    later. -/
structure Settled where
  fragments : List Fragment
  kept : List Octet
deriving DecidableEq, Repr

namespace Settled

/-- What a run of octets settles after the kept ones, when each octet settles what `push` says. -/
def scan (push : List Octet → Octet → Settled) (kept : List Octet) : List Octet → Settled
  | [] => ⟨[], kept⟩
  | b :: rest =>
    let here := push kept b
    let later := scan push here.kept rest
    ⟨here.fragments ++ later.fragments, later.kept⟩

@[simp] theorem scan_nil (push : List Octet → Octet → Settled) (kept : List Octet) :
    scan push kept [] = ⟨[], kept⟩ := rfl

/-- A run split in two is cut as the whole run is. -/
theorem scan_append (push : List Octet → Octet → Settled) (kept xs ys : List Octet) :
    scan push kept (xs ++ ys) =
      ⟨(scan push kept xs).fragments ++ (scan push (scan push kept xs).kept ys).fragments,
        (scan push (scan push kept xs).kept ys).kept⟩ := by
  induction xs generalizing kept with
  | nil => simp
  | cons b xs ih => simp [scan, ih]

end Settled

end Encoding
end Lexeme
