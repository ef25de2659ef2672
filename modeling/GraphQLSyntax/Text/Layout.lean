import GraphQLSyntax.Text.Position

/-!
# Layout

Texts filled up to a width.

* `Layout.rightAligned`, `Layout.leftAligned`: filled up with blanks on one side.
* `Layout.indent`: the blanks before a column. Further to the right than `Layout.widest` nothing can
  be laid out, which is a `Layout.Failure`.
-/

namespace GraphQLSyntax.Layout

/-- Why something cannot be laid out. -/
inductive Failure where
  /-- A marker would stand further to the right than can be laid out. -/
  | tooWide (column : Nat)
  /-- What was found ends before the column that it starts in. -/
  | reversed (span : Span)
deriving DecidableEq, Repr

/-- The widest indentation. -/
def widest : Nat := 65535

/-- `n` blanks. -/
def blanks (n : Nat) : String := String.ofList (List.replicate n ' ')

/-- A number at the right end of `width` columns. -/
def rightAligned (width n : Nat) : String :=
  let digits := toString n
  blanks (width - digits.length) ++ digits

/-- A text at the left end of `width` columns. -/
def leftAligned (width : Nat) (text : String) : String := text ++ blanks (width - text.length)

/-- The blanks before the given column. -/
def indent (column : Nat) : Except Failure String :=
  if column - 1 ≤ widest then .ok (blanks (column - 1)) else .error (.tooWide column)

end GraphQLSyntax.Layout
