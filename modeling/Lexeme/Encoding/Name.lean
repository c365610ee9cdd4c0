import Lexeme.Failure

/-! # Names of encodings

Six encodings are described here, and a name of any other is refused (`Encoding.find`), though it may well mean
something elsewhere: which names a source knows is up to its codecs, of which those found here are one choice.

An encoding has one canonical name and some aliases. A name is read loosely: its runs of letters, digits
and full stops are joined by underscores in lower case, so that case, and which other marks stand between
two runs, do not matter. An alias may also be written with full stops for its underscores; a canonical name
may not. -/

namespace Lexeme

/-- How the octets of a source are decoded: in a fixed form, or in the UTF-16 that a mark at the beginning
    announces. -/
inductive Encoding where
  | fixed (form : Encoding.Form)
  | markedUtf16
deriving DecidableEq, Repr

namespace Encoding

def isNameChar (c : Char) : Bool :=
  c.isAlphanum || c == '.'

/-- The runs of a name in lower case, joined by underscores; `started` says that a run has ended or begun
    before, and `gap` that other characters have come since. -/
def canonicalFrom (started gap : Bool) : Text → Text
  | [] => []
  | c :: rest =>
    if isNameChar c then
      (if started && gap then ['_'] else []) ++ c.toLower :: canonicalFrom true false rest
    else canonicalFrom started true rest

def canonicalName (name : String) : String :=
  String.ofList (canonicalFrom false false name.toList)

def canonicalNames : List (String × Encoding) :=
  [("utf_8", .fixed .utf8), ("ascii", .fixed .ascii), ("latin_1", .fixed .latin1),
    ("utf_16_le", .fixed (.utf16 .little)), ("utf_16_be", .fixed (.utf16 .big)), ("utf_16", .markedUtf16)]

def aliases : List (List String × Encoding) :=
  [(["u8", "utf", "utf8", "utf8_ucs2", "utf8_ucs4", "cp65001"], .fixed .utf8),
    (["646", "ansi_x3.4_1968", "ansi_x3_4_1968", "ansi_x3.4_1986", "cp367", "csascii", "ibm367",
      "iso646_us", "iso_646.irv_1991", "iso_ir_6", "us", "us_ascii"], .fixed .ascii),
    (["8859", "cp819", "csisolatin1", "ibm819", "iso8859", "iso8859_1", "iso_8859_1", "iso_8859_1_1987",
      "iso_ir_100", "l1", "latin", "latin1"], .fixed .latin1),
    (["utf_16le", "unicodelittleunmarked"], .fixed (.utf16 .little)),
    (["utf_16be", "unicodebigunmarked"], .fixed (.utf16 .big)),
    (["u16", "utf16"], .markedUtf16)]

def ofAlias? (name : String) : Option Encoding :=
  (aliases.find? fun entry => entry.1.contains name).map (·.2)

def ofName? (name : String) : Option Encoding :=
  let canonical := canonicalName name
  let spaced := String.ofList (canonical.toList.map fun c => if c = '.' then '_' else c)
  ((ofAlias? canonical).or (ofAlias? spaced)).or (canonicalNames.lookup canonical)

/-- The one of the six encodings that a name means, or why it means none of them. A name with a NUL is none at
    all. -/
def find (name : String) : Except Failure Encoding :=
  if name.toList.contains '\x00' then .error .nulInName
  else
    match ofName? name with
    | some encoding => .ok encoding
    | none => .error (.unknownEncoding name)

theorem ne_emptyWord_of_find (name : String) : FailsOnly (· ≠ .emptyWord) (find name) := by
  unfold find
  split
  · exact failsOnly_error Failure.noConfusion
  · split
    · exact failsOnly_ok _
    · exact failsOnly_error Failure.noConfusion

end Encoding
end Lexeme
