import GraphQLSyntax.Text.Position
import GraphQLSyntax.Lexical.Ignorable

/-!
# Cursors

A `Cursor` stands between two characters of a text: it holds the text that is left, and its
position in the whole.

* `Cursor.step`: the cursor past one character. A line feed, a carriage return, and the two in this
  order each end one line.
* `Cursor.consume`: the cursor past a piece of text.
* `Cursor.skipGap`: the cursor past everything that carries no meaning between lexemes. A byte
  order mark at the start of a line does not count as a column.
-/

namespace GraphQLSyntax

/-- A place in a text together with the text that is left. `afterReturn` tells that the last
character was a carriage return, so that a line feed would end no further line. -/
structure Cursor where
  rest : List Char
  position : Position
  afterReturn : Bool
deriving DecidableEq, Repr, Inhabited

namespace Cursor

/-- The cursor before the first character. -/
def ofText (text : String) : Cursor := ⟨text.toList, .start, false⟩

/-- The cursor past the character `c` that stands there. -/
def step (k : Cursor) (c : Char) : Cursor :=
  let p := k.position
  if c = '\n' then
    ⟨k.rest.tail, ⟨if k.afterReturn then p.line else p.line + 1, 1, p.byteOffset + 1⟩, false⟩
  else if c = '\r' then ⟨k.rest.tail, ⟨p.line + 1, 1, p.byteOffset + 1⟩, true⟩
  else ⟨k.rest.tail, p.shiftRight c.utf8Size, false⟩

/-- The cursor past the text `taken` that stands there. -/
def consume (k : Cursor) (taken : List Char) : Cursor := taken.foldl step k

/-- The cursor past a character between lexemes. A byte order mark in the first column leaves the
column as it is. -/
def skip (k : Cursor) (c : Char) : Cursor :=
  if c = Lexical.byteOrderMark ∧ k.position.column = 1 then
    ⟨k.rest.tail, ⟨k.position.line, 1, k.position.byteOffset + c.utf8Size⟩, false⟩
  else k.step c

/-- The cursor before the next character that is not a gap. -/
def skipGap (k : Cursor) : Cursor := (k.rest.takeWhile Lexical.isGap).foldl skip k

/-! ## The text that is left -/

@[simp] theorem rest_step (k : Cursor) (c : Char) : (k.step c).rest = k.rest.tail := by
  unfold step
  dsimp only
  split
  · rfl
  · split <;> rfl

@[simp] theorem rest_skip (k : Cursor) (c : Char) : (k.skip c).rest = k.rest.tail := by
  unfold skip
  split
  · rfl
  · exact rest_step k c

/-- Consuming a text leaves what follows it. -/
@[simp] theorem rest_consume (k : Cursor) (taken : List Char) :
    (k.consume taken).rest = k.rest.drop taken.length := by
  unfold consume
  induction taken generalizing k with
  | nil => simp
  | cons c cs ih => simp [ih]

/-- Skipping a gap leaves what follows it. -/
@[simp] theorem rest_skipGap (k : Cursor) : k.skipGap.rest = k.rest.dropWhile Lexical.isGap := by
  have skipped (taken : List Char) (k : Cursor) :
      (taken.foldl skip k).rest = k.rest.drop taken.length := by
    induction taken generalizing k with
    | nil => simp
    | cons c cs ih => simp [ih]
  calc
    k.skipGap.rest = k.rest.drop (k.rest.takeWhile Lexical.isGap).length := skipped _ _
    _ = (k.rest.takeWhile Lexical.isGap ++ k.rest.dropWhile Lexical.isGap).drop
          (k.rest.takeWhile Lexical.isGap).length := by rw [List.takeWhile_append_dropWhile]
    _ = k.rest.dropWhile Lexical.isGap := List.drop_left

end Cursor

end GraphQLSyntax
