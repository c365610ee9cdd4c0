import Lexeme.Encoding.Form

/-! # Failures

What can go wrong below a token stream: a reader reports a fault, octets cannot be decoded, a name of an
encoding or of a handler means nothing or is none, a handler cannot decode, a word turns out empty. Some
failures count as failures of reading (`isReadFailure`); a source names itself in these. All others pass
through it unchanged. -/

namespace Lexeme

/-- The sorts of fault that a read ends with, by the reader or by a codec. Those with no name here have one of
    their own, and are known to be failures of reading or none. What a source itself refuses is no fault of what
    it reads, and a signal that an iteration is over comes out of a read as a `runtime` fault. -/
inductive Fault where
  | system
  | connectionReset
  | timeout
  | value
  | unicode
  | runtime
  | endOfFile
  | other (name : String) (ofReading : Bool)
deriving DecidableEq, Repr

/-- The faults of systems and of values are failures of reading. -/
def Fault.isReadFailure : Fault → Bool
  | system => true
  | connectionReset => true
  | timeout => true
  | value => true
  | unicode => true
  | runtime => false
  | endOfFile => false
  | other _ ofReading => ofReading

inductive Failure where
  | reported (fault : Fault) (text : String)
  | undecodable (form : Encoding.Form) (reason : Encoding.Malformation) (octets : List Octet)
      (position : Nat)
  | missingMark
  | unknownEncoding (name : String)
  | unknownHandler (name : String)
  | unfitHandler
  | nulInName
  | emptyWord
deriving DecidableEq, Repr

namespace Failure

/-- Some faults are failures of reading, as is all that decoding finds wrong with the octets. A name with a NUL
    is a fault of a value. -/
def isReadFailure : Failure → Bool
  | reported fault _ => fault.isReadFailure
  | undecodable .. => true
  | missingMark => true
  | unknownEncoding _ => false
  | unknownHandler _ => false
  | unfitHandler => false
  | nulInName => true
  | emptyWord => false

def octetDigits (b : Octet) : String :=
  let digits := Nat.toDigits 16 b.toNat
  String.ofList (List.replicate (2 - digits.length) '0' ++ digits)

/-- Where octets lie: a single one with its value, several by their first and last position. -/
def octetRange (octets : List Octet) (position : Nat) : String :=
  match octets with
  | [b] => s!"byte 0x{octetDigits b} in position {position}"
  | _ => s!"bytes in position {position}-{position + octets.length - 1}"

/-- The number of octets of a handler's name that are shown. -/
def shownOctets : Nat := 400

def message : Failure → String
  | reported _ text => text
  | undecodable form reason octets position =>
    "'" ++ form.name ++ "' codec can't decode " ++ octetRange octets position ++ ": " ++ reason.message
  | missingMark => "UTF-16 stream does not start with BOM"
  | unknownEncoding name => s!"unknown encoding: {name}"
  | unknownHandler name =>
    "unknown error handler name '" ++ Text.toString (Text.clip shownOctets name.toList) ++ "'"
  | unfitHandler => "don't know how to handle UnicodeDecodeError in error callback"
  | nulInName => "embedded null character"
  | emptyWord => "word tokens cannot be empty"

end Failure

/-! ### Results that fail in one way only -/

universe u v

/-- A result that can be a failure of one sort only. -/
def FailsOnly {α : Type u} (P : Failure → Prop) (r : Except Failure α) : Prop :=
  ∀ failure, r = .error failure → P failure

section
variable {P : Failure → Prop} {α : Type u}

theorem failsOnly_ok (a : α) : FailsOnly P (.ok a) := by
  intro failure h
  cases h

theorem failsOnly_error {failure : Failure} (h : P failure) : FailsOnly P (.error failure : Except Failure α) := by
  intro cause he
  cases he
  exact h

theorem FailsOnly.bind {β : Type u} {r : Except Failure α} {f : α → Except Failure β} (hr : FailsOnly P r)
    (hf : ∀ a, FailsOnly P (f a)) : FailsOnly P (r >>= f) := by
  cases r with
  | error failure => exact failsOnly_error (hr failure rfl)
  | ok a => exact hf a

theorem FailsOnly.map {β : Type v} {r : Except Failure α} (hr : FailsOnly P r) (f : α → β) : FailsOnly P (r.map f) := by
  cases r with
  | error failure => exact failsOnly_error (hr failure rfl)
  | ok a => exact failsOnly_ok (f a)

end

/-- A failure of reading, with the name of the source that was read. -/
structure ReadError where
  source : String
  cause : Failure
deriving DecidableEq, Repr

def ReadError.message (e : ReadError) : String :=
  e.source ++ ": " ++ e.cause.message

end Lexeme
