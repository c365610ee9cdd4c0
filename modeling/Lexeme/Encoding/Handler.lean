import Lexeme.Failure
import Lexeme.Text.Quoted

/-! # What becomes of malformed octets

A handler says what stands in the text for a malformed fragment: it may refuse it, put one replacement
character, leave it out, or write its octets in hexadecimal. Two handlers let surrogates into the text, one
those that are written in it, the other one for each octet outside ASCII. As a text holds no surrogates,
U+FFFD stands here where each of them would: of these two handlers, what is said of all handlers holds up to
that exchange. They need not take a fragment as a whole: what they do not take at its beginning they refuse,
and what they do not take at its end is decoded anew with the octets that follow.

A handler is chosen by name. That a name means no handler, or one that can only encode, is found out when
something malformed is met; that a name is none because it holds a NUL, when anything is decoded. -/

namespace Lexeme.Encoding

inductive Handler where
  | strict
  | replace
  | ignore
  | escape
  | keepSurrogates
  | maskOctets
  | encodeOnly
  | unknown (name : String)
  | nameless
deriving DecidableEq, Repr

namespace Handler

def ofName : String → Handler
  | "strict" => strict
  | "replace" => replace
  | "ignore" => ignore
  | "backslashreplace" => escape
  | "surrogatepass" => keepSurrogates
  | "surrogateescape" => maskOctets
  | "xmlcharrefreplace" => encodeOnly
  | "namereplace" => encodeOnly
  | name => if name.toList.contains '\x00' then nameless else unknown name

/-- The number of octets at the beginning of a malformed fragment that write a surrogate. -/
def surrogateSize (form : Form) (reason : Malformation) (octets : List Octet) : Nat :=
  match form, reason with
  | _, .loneSurrogate => octets.length
  | _, .unpairedSurrogate => octets.length
  | .utf16 _, .unexpectedEnd => 2
  | _, _ => 0

/-- The number of octets at the beginning of a malformed fragment that a handler takes together. -/
def takenSize (h : Handler) (form : Form) (reason : Malformation) (octets : List Octet) : Nat :=
  match h with
  | keepSurrogates => surrogateSize form reason octets
  | maskOctets => (octets.takeWhile (0x80 ≤ ·)).length
  | _ => octets.length

/-- What is settled, with a malformed fragment that comes first cut off after the octets that are taken
    together. All octets after these are decoded anew. -/
def cutOff (h : Handler) (form : Form) (s : Settled) : Settled :=
  match s.fragments with
  | .malformed reason octets :: rest =>
    let size := h.takenSize form reason octets
    if size = 0 ∨ octets.length ≤ size then s
    else
      let anew := form.scan [] (octets.drop size ++ rest.flatMap (·.octets) ++ s.kept)
      ⟨.malformed reason (octets.take size) :: anew.fragments, anew.kept⟩
  | _ => s

/-- What is settled, in the fragments that a handler takes. -/
def regroup (h : Handler) (form : Form) (s : Settled) : Settled :=
  match h, form with
  | keepSurrogates, .utf8 => Utf8.joinSurrogate s
  | _, _ => h.cutOff form s

def push (h : Handler) (form : Form) (kept : List Octet) (b : Octet) : Settled :=
  h.regroup form (form.push kept b)

def scan (h : Handler) (form : Form) : List Octet → List Octet → Settled :=
  Settled.scan (h.push form)

def finish (h : Handler) (form : Form) (kept : List Octet) : List Fragment :=
  let s := h.regroup form ⟨form.finish kept, []⟩
  s.fragments ++ form.finish s.kept

/-- A handler that lets no surrogates into the text takes all fragments as wholes. -/
theorem regroup_eq_self {h : Handler} (hk : h ≠ keepSurrogates) (hm : h ≠ maskOctets) (form : Form)
    (s : Settled) : h.regroup form s = s := by
  have hc : h.cutOff form s = s := by
    unfold cutOff
    split
    · cases h <;> simp_all [takenSize]
    · rfl
  cases h <;> simp_all [regroup]

theorem scan_eq_scan {h : Handler} (hk : h ≠ keepSurrogates) (hm : h ≠ maskOctets) (form : Form)
    (kept octets : List Octet) : h.scan form kept octets = form.scan kept octets := by
  have hp : h.push form = form.push := by
    funext kept b
    exact regroup_eq_self hk hm form _
  rw [scan, Form.scan, hp]

theorem finish_eq_finish {h : Handler} (hk : h ≠ keepSurrogates) (hm : h ≠ maskOctets) (form : Form)
    (kept : List Octet) : h.finish form kept = form.finish kept := by
  simp [finish, regroup_eq_self hk hm]

/-- What stands in the text for malformed octets found at a position; U+FFFD also where a surrogate would. -/
def handle (h : Handler) (form : Form) (position : Nat) (reason : Malformation) (octets : List Octet) :
    Except Failure Text :=
  let refusal : Failure := .undecodable form reason octets position
  match h with
  | strict => .error refusal
  | replace => .ok ['\ufffd']
  | ignore => .ok []
  | escape => .ok (octets.flatMap fun b => Text.escapeCode b.toNat)
  | keepSurrogates =>
    if h.takenSize form reason octets = 0 then .error refusal else .ok ['\ufffd']
  | maskOctets =>
    if h.takenSize form reason octets = 0 then .error refusal else .ok (octets.map fun _ => '\ufffd')
  | encodeOnly => .error .unfitHandler
  | unknown name => .error (.unknownHandler name)
  | nameless => .error .nulInName

/-- The text that fragments stand for, the first of which lies at a position; the first failure wins. -/
def resolve (h : Handler) (form : Form) : Nat → List Fragment → Except Failure Text
  | _, [] => .ok []
  | position, .char c octets :: rest => do
    let text ← h.resolve form (position + octets.length) rest
    return c :: text
  | position, .malformed reason octets :: rest => do
    let shown ← h.handle form position reason octets
    let text ← h.resolve form (position + octets.length) rest
    return shown ++ text

theorem failsOnly_resolve {P : Failure → Prop} {h : Handler} {form : Form}
    (hh : ∀ position reason octets, FailsOnly P (h.handle form position reason octets)) (position : Nat)
    (fragments : List Fragment) : FailsOnly P (h.resolve form position fragments) := by
  induction fragments generalizing position with
  | nil => exact failsOnly_ok []
  | cons fragment rest ih =>
    cases fragment with
    | char c octets => exact (ih _).bind fun text => failsOnly_ok _
    | malformed reason octets =>
      exact (hh position reason octets).bind fun shown => (ih _).bind fun text => failsOnly_ok _

theorem ne_emptyWord_of_handle (h : Handler) (form : Form) (position : Nat) (reason : Malformation)
    (octets : List Octet) : FailsOnly (· ≠ .emptyWord) (h.handle form position reason octets) := by
  cases h with
  | strict | encodeOnly | unknown name | nameless => exact failsOnly_error Failure.noConfusion
  | replace | ignore | escape => exact failsOnly_ok _
  | keepSurrogates | maskOctets =>
    unfold handle
    dsimp only
    split
    · exact failsOnly_error Failure.noConfusion
    · exact failsOnly_ok _

end Handler
end Lexeme.Encoding
