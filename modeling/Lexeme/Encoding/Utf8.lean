import Lexeme.Encoding.Fragment

/-! # UTF-8, octet by octet

The first octet of a character tells how many octets it has, and for some first octets the second is
restricted, so that no character has two forms. What is kept is the beginning of one character. An octet
that cannot continue it settles it as malformed, and starts anew.

A surrogate would have three octets, of which the first two tell it. They make no character, each of them is
malformed by itself, but that is settled only when the octet after them or the end of the input comes. -/

namespace Lexeme.Encoding.Utf8

/-- The number of octets of a character, by its first octet. -/
def width? (lead : Octet) : Option Nat :=
  if lead < 0x80 then some 1
  else if lead < 0xc2 then none
  else if lead < 0xe0 then some 2
  else if lead < 0xf0 then some 3
  else if lead < 0xf5 then some 4
  else none

/-- An octet that may stand in third or fourth place. -/
def isTail (b : Octet) : Bool :=
  0x80 ≤ b && b ≤ 0xbf

/-- An octet that may stand in second place after a given first octet. -/
def isSecond (lead b : Octet) : Bool :=
  if lead = 0xe0 then 0xa0 ≤ b && b ≤ 0xbf
  else if lead = 0xf0 then 0x90 ≤ b && b ≤ 0xbf
  else if lead = 0xf4 then 0x80 ≤ b && b ≤ 0x8f
  else isTail b

/-- The first two octets that a surrogate would have. -/
def opensSurrogate : List Octet → Bool
  | [lead, b] => lead == 0xed && 0xa0 ≤ b
  | _ => false

/-- An octet that may continue the beginning of a character. -/
def continues : List Octet → Octet → Bool
  | [lead], b => isSecond lead b
  | kept, b => !opensSurrogate kept && isTail b

/-- What kept octets are that make no character, for a given reason; a surrogate is two of them. -/
def abandon (reason : Malformation) (kept : List Octet) : List Fragment :=
  if opensSurrogate kept then
    [.malformed .invalidContinuation (kept.take 1), .malformed .invalidStart (kept.drop 1)]
  else [.malformed reason kept]

def codePoint : List Octet → Nat
  | [a] => a.toNat
  | [a, b] => (a.toNat % 32) * 64 + b.toNat % 64
  | [a, b, c] => (a.toNat % 16) * 4096 + (b.toNat % 64) * 64 + c.toNat % 64
  | [a, b, c, d] =>
    (a.toNat % 8) * 262144 + (b.toNat % 64) * 4096 + (c.toNat % 64) * 64 + d.toNat % 64
  | _ => 0

def charOf (octets : List Octet) : Char :=
  Char.ofNat (codePoint octets)

/-- What the first octet of a fragment settles. -/
def start (b : Octet) : Settled :=
  match width? b with
  | none => ⟨[.malformed .invalidStart [b]], []⟩
  | some 1 => ⟨[.char (charOf [b]) [b]], []⟩
  | some _ => ⟨[], [b]⟩

def push (kept : List Octet) (b : Octet) : Settled :=
  match kept with
  | [] => start b
  | lead :: _ =>
    let octets := kept ++ [b]
    if !continues kept b then
      let settled := start b
      ⟨abandon .invalidContinuation kept ++ settled.fragments, settled.kept⟩
    else if width? lead = some octets.length then ⟨[.char (charOf octets) octets], []⟩
    else ⟨[], octets⟩

def finish (kept : List Octet) : List Fragment :=
  if kept.isEmpty then [] else abandon .unexpectedEnd kept

/-- What is settled, with the three octets of a surrogate as one fragment. -/
def joinSurrogate (s : Settled) : Settled :=
  match s.fragments with
  | [.malformed _ [a], .malformed _ [b], .malformed _ [c]] =>
    if opensSurrogate [a, b] && isTail b && isTail c then
      ⟨[.malformed .loneSurrogate [a, b, c]], s.kept⟩
    else s
  | _ => s

end Lexeme.Encoding.Utf8
