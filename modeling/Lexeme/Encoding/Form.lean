import Lexeme.Encoding.Utf8
import Lexeme.Encoding.Utf16

/-! # Forms of encoded text

A form cuts octets into fragments, one octet at a time: the kept octets are all that it remembers between
two of them. So the cut of a run of octets does not depend on how the run was split into pieces
(`scan_append`). -/

namespace Lexeme.Encoding

/-- A way to write characters as octets. -/
inductive Form where
  | utf8
  | ascii
  | latin1
  | utf16 (order : ByteOrder)
deriving DecidableEq, Repr

namespace Form

def name : Form → String
  | utf8 => "utf-8"
  | ascii => "ascii"
  | latin1 => "latin-1"
  | utf16 .little => "utf-16-le"
  | utf16 .big => "utf-16-be"

/-- What an octet settles after the kept ones. -/
def push : Form → List Octet → Octet → Settled
  | utf8, kept, b => Utf8.push kept b
  | utf16 order, kept, b => Utf16.push order kept b
  | latin1, _, b => ⟨[.char (Char.ofNat b.toNat) [b]], []⟩
  | ascii, _, b =>
    if b < 0x80 then ⟨[.char (Char.ofNat b.toNat) [b]], []⟩ else ⟨[.malformed .outOfRange [b]], []⟩

/-- What the end of the input makes of the kept octets. -/
def finish : Form → List Octet → List Fragment
  | utf8, kept => Utf8.finish kept
  | utf16 _, kept => Utf16.finish kept
  | latin1, _ => []
  | ascii, _ => []

/-- What a run of octets settles after the kept ones. -/
def scan (f : Form) : List Octet → List Octet → Settled :=
  Settled.scan f.push

@[simp] theorem finish_nil (f : Form) : f.finish [] = [] := by
  cases f <;> rfl

end Form
end Lexeme.Encoding
