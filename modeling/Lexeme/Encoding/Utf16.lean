import Lexeme.Encoding.Fragment

/-! # UTF-16, octet by octet

Two octets make a unit, in little-endian or big-endian order. A unit outside the surrogates is a character;
a high surrogate and the low surrogate after it make one together. What is kept is half a unit, or a high
surrogate, or a high surrogate with half a unit after it. -/

namespace Lexeme.Encoding

/-- Which octet of a unit comes first: the low one or the high one. -/
inductive ByteOrder where
  | little
  | big
deriving DecidableEq, Repr

namespace Utf16

def unit : ByteOrder → Octet → Octet → Nat
  | .little, a, b => a.toNat + 256 * b.toNat
  | .big, a, b => 256 * a.toNat + b.toNat

def isHigh (u : Nat) : Bool :=
  0xd800 ≤ u && u < 0xdc00

def isLow (u : Nat) : Bool :=
  0xdc00 ≤ u && u < 0xe000

def pairChar (high low : Nat) : Char :=
  Char.ofNat (0x10000 + (high - 0xd800) * 0x400 + (low - 0xdc00))

/-- What the first unit of a fragment settles. -/
def start (order : ByteOrder) (a b : Octet) : Settled :=
  let u := unit order a b
  if isHigh u then ⟨[], [a, b]⟩
  else if isLow u then ⟨[.malformed .loneSurrogate [a, b]], []⟩
  else ⟨[.char (Char.ofNat u) [a, b]], []⟩

def push (order : ByteOrder) (kept : List Octet) (d : Octet) : Settled :=
  match kept with
  | [a] => start order a d
  | [a, b, c] =>
    if isLow (unit order c d) then
      ⟨[.char (pairChar (unit order a b) (unit order c d)) [a, b, c, d]], []⟩
    else
      let settled := start order c d
      ⟨.malformed .unpairedSurrogate [a, b] :: settled.fragments, settled.kept⟩
  | _ => ⟨[], kept ++ [d]⟩

def finish : List Octet → List Fragment
  | [] => []
  | [a] => [.malformed .truncated [a]]
  | kept => [.malformed .unexpectedEnd kept]

end Utf16
end Lexeme.Encoding
