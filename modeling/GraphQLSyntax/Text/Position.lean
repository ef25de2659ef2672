/-!
# Positions and spans

A `Position` is a place between two characters of a source text, a `Span` the half-open stretch
between two of them.

* `Span.isEmpty`: only byte offsets decide whether a span covers anything.
* `Span.endLine`, `Span.endColumn`: where the last covered character stands, as a reader counts.
  An empty span reports the place where it stands.
-/

namespace GraphQLSyntax

/-- A place in a source text. Lines and columns count from 1, byte offsets from 0; columns count
the bytes of the line, not its characters. -/
structure Position where
  line : Nat
  column : Nat
  byteOffset : Nat
deriving DecidableEq, Repr, Inhabited

namespace Position

/-- Where every text starts. -/
def start : Position := ⟨1, 1, 0⟩

/-- The written form `line:column`. -/
def render (p : Position) : String := toString p.line ++ ":" ++ toString p.column

/-- The position `n` bytes further on the same line. -/
def shiftRight (p : Position) (n : Nat) : Position := ⟨p.line, p.column + n, p.byteOffset + n⟩

end Position

/-- The stretch of text from `start` up to, but not including, `stop`. -/
structure Span where
  start : Position
  stop : Position
deriving DecidableEq, Repr, Inhabited

namespace Span

/-- The span at `p` that covers nothing. -/
def emptyAt (p : Position) : Span := ⟨p, p⟩

/-- The span from the start of `a` to the end of `b`. -/
def join (a b : Span) : Span := ⟨a.start, b.stop⟩

/-- Whether a span covers no byte. -/
def isEmpty (s : Span) : Bool := decide (s.stop.byteOffset ≤ s.start.byteOffset)

/-- The line of the last covered character. -/
def endLine (s : Span) : Nat := if s.isEmpty then s.start.line else s.stop.line

/-- The column of the last covered byte, read off the column behind it. What a span covers never
ends on a line break, so both stand on one line. -/
def endColumn (s : Span) : Nat :=
  if s.isEmpty then s.start.column else max (s.stop.column - 1) 1

@[simp] theorem isEmpty_emptyAt (p : Position) : (emptyAt p).isEmpty = true := by
  simp [isEmpty, emptyAt]

theorem isEmpty_of_lt {s : Span} (h : s.start.byteOffset < s.stop.byteOffset) :
    s.isEmpty = false := decide_eq_false (Nat.not_le_of_lt h)

end Span

end GraphQLSyntax
