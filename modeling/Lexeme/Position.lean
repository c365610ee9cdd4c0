import Lexeme.Position.Qualified
import Lexeme.RunMerge

/-! # Positions of any kind

A location or a span, bare or in a source. All positions can be asked for a location, for what comes after
them and for a span from them; what else they can be asked for depends on their kind. Two positions are in
an order only if they are of one kind. -/

namespace Lexeme

inductive PositionKind where
  | location
  | span
  | sourceLocation
  | sourceSpan
deriving DecidableEq, Repr

def PositionKind.name : PositionKind → String
  | location => "Location"
  | span => "Span"
  | sourceLocation => "SourceLocation"
  | sourceSpan => "SourceSpan"

inductive Position where
  | location (l : Location)
  | span (s : Span)
  | sourceLocation (l : SourceLocation)
  | sourceSpan (s : SourceSpan)

inductive Relation where
  | less
  | lessOrEqual
  | greater
  | greaterOrEqual
deriving DecidableEq, Repr

namespace Relation

def sign : Relation → String
  | less => "<"
  | lessOrEqual => "<="
  | greater => ">"
  | greaterOrEqual => ">="

/-- Whether a relation holds between two values of which the outcome of comparing is known. -/
def holds : Relation → Ordering → Bool
  | less, o => o.isLT
  | lessOrEqual, o => o.isLE
  | greater, o => o.isGT
  | greaterOrEqual, o => o.isGE

end Relation

/-- What a position can be asked for. -/
inductive Member where
  | location
  | span
  | start
  | stop
  | length
  | after (cell : Text)
  | spanTo (stop : Location)
  | extend (cell : Text)
  | contains (l : Location)
  | excerpt
  | other (name : String)
deriving DecidableEq, Repr

def Member.name : Member → String
  | location => "location"
  | span => "span"
  | start => "start"
  | stop => "end"
  | length => "length"
  | after _ => "location_after"
  | spanTo _ => "span_to"
  | extend _ => "extended_span"
  | contains _ => "contains"
  | excerpt => "excerpt"
  | other name => name

inductive MemberAnswer where
  | position (p : Position)
  | length (n : Int)
  | truth (b : Bool)
  | text (t : Text)

inductive PositionError where
  | noMember (kind : PositionKind) (name : String)
  | unordered (relation : Relation) (left right : PositionKind)
  | source (error : SourceError)
deriving DecidableEq, Repr

def PositionError.message : PositionError → String
  | noMember kind name => "'" ++ kind.name ++ "' object has no attribute '" ++ name ++ "'"
  | unordered relation left right =>
    "'" ++ relation.sign ++ "' not supported between instances of '" ++ left.name ++ "' and '" ++
      right.name ++ "'"
  | source error => error.message

namespace Position

def kind : Position → PositionKind
  | location _ => .location
  | span _ => .span
  | sourceLocation _ => .sourceLocation
  | sourceSpan _ => .sourceSpan

def label : Position → String
  | location l => l.label
  | span s => s.label
  | sourceLocation l => SourceLocation.label l
  | sourceSpan s => SourceSpan.label s

def describe : Position → String
  | location l => l.describe
  | span s => s.describe
  | sourceLocation l => SourceLocation.describe l
  | sourceSpan s => SourceSpan.describe s

/-- The locations that a position is made of, in order. -/
def locations : Position → List Location
  | location l => [l]
  | span s => [s.start, s.stop]
  | sourceLocation l => [l.inner]
  | sourceSpan s => [s.inner.start, s.inner.stop]

/-- What any span answers. -/
def ofSpan (s : Span) : Member → Option MemberAnswer
  | .location => some (.position (location s.start))
  | .span => some (.position (span s))
  | .start => some (.position (location s.start))
  | .stop => some (.position (location s.stop))
  | _ => none

/-- What a position answers to a member, where its kind has it. -/
def answer? (p : Position) (m : Member) : Option (Except SourceError MemberAnswer) :=
  match p, m with
  | location l, .location => some (.ok (.position (location l)))
  | location l, .after cell => some (.ok (.position (location (l.after cell))))
  | location l, .spanTo stop => some (.ok (.position (span (l.spanTo stop))))
  | span s, .after cell => some (.ok (.position (span (s.after cell))))
  | span s, .spanTo stop => some (.ok (.position (span (s.spanTo stop))))
  | span s, .extend cell => some (.ok (.position (span (s.extend cell))))
  | span s, .length => some (.ok (.length s.length))
  | span s, .contains l => some (.ok (.truth (l ∈ s)))
  | span s, m => (ofSpan s m).map .ok
  | sourceLocation l, .location => some (.ok (.position (location l.inner)))
  | sourceLocation l, .after cell => some (.ok (.position (sourceLocation (SourceLocation.after l cell))))
  | sourceLocation l, .spanTo stop => some (.ok (.position (sourceSpan (SourceLocation.spanTo l stop))))
  | sourceSpan s, .after cell => some (.ok (.position (sourceSpan (SourceSpan.after s cell))))
  | sourceSpan s, .spanTo stop => some (.ok (.position (sourceSpan (SourceSpan.spanTo s stop))))
  | sourceSpan s, .extend cell => some (.ok (.position (sourceSpan (SourceSpan.extend s cell))))
  | sourceSpan s, .excerpt => some ((SourceSpan.excerpt s).map .text)
  | sourceSpan s, m => (ofSpan s.inner m).map .ok
  | _, _ => none

/-- What a position answers to a member, or why it refuses. -/
def ask (p : Position) (m : Member) : Except PositionError MemberAnswer :=
  match p.answer? m with
  | none => .error (.noMember p.kind m.name)
  | some (.error error) => .error (.source error)
  | some (.ok answer) => .ok answer

/-- What is answered to members asked one after another: first of the position, then of the last position
    that was answered. -/
def trail (p : Position) : List Member → List (Except PositionError MemberAnswer)
  | [] => []
  | m :: rest =>
    match p.ask m with
    | .ok (.position q) => .ok (.position q) :: q.trail rest
    | answer => answer :: p.trail rest

/-- Two positions are the same when they are of one kind and their inner values are the same. -/
def same : Position → Position → Bool
  | location a, location b => a == b
  | span a, span b => a == b
  | sourceLocation a, sourceLocation b => a == b
  | sourceSpan a, sourceSpan b => a == b
  | _, _ => false

/-- The outcome of comparing two positions of one kind. -/
def compare? : Position → Position → Option Ordering
  | location a, location b => some (compare a b)
  | span a, span b => some (compare a b)
  | sourceLocation a, sourceLocation b => some (compare a b)
  | sourceSpan a, sourceSpan b => some (compare a b)
  | _, _ => none

/-- Whether a relation holds between two positions. -/
def relate (r : Relation) (a b : Position) : Except PositionError Bool :=
  match compare? a b with
  | some o => .ok (r.holds o)
  | none => .error (.unordered r a.kind b.kind)

/-- A position may stand before another in a sorted list unless it is greater. -/
def precedes (a b : Position) : Bool :=
  compare? a b != some .gt

/-- Positions of one kind in ascending order, equal ones in the order given. Positions of several kinds are
    refused with the first two kinds that meet in sorting by runs. -/
def sort (positions : List Position) : Except PositionError (List Position) :=
  match RunMerge.clash? kind (fun a b => compare? a b == some .lt) positions with
  | some clash => .error (.unordered .less clash.left clash.right)
  | none => .ok (positions.mergeSort precedes)

/-- A position is a stretch when it is a span, bare or in a source. -/
def isStretch (p : Position) : Bool :=
  p.kind = .span ∨ p.kind = .sourceSpan

end Position
end Lexeme
