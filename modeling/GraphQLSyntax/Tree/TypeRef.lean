import GraphQLSyntax.Token

/-!
# Type references

A type reference is the name of a type inside any number of lists. The type at each level, each list
and the name itself, may be marked non-null.

* `Wrapping`: the lists around a name and the marks of all levels, from the outside in.
* `Wrapping.isNonNullAt`: the mark of one level. Level 0 is the outermost type, and the level that
  equals the number of lists is the name.
* `Wrapping.mask`: all marks in one number, with bit `l` for level `l`.
* `TypeRef.isNonNullAt`: the mark of one level as it is read off the mask, which has 64 bits.
-/

namespace GraphQLSyntax

/-- The lists around a type name, and the levels that are marked non-null. -/
inductive Wrapping where
  /-- The name itself. -/
  | named (nonNull : Bool)
  /-- A list of `items`. -/
  | list (nonNull : Bool) (items : Wrapping)
deriving DecidableEq, Repr, Inhabited

namespace Wrapping

/-- The number of lists. -/
def dimensions : Wrapping → Nat
  | named _ => 0
  | list _ items => items.dimensions + 1

/-- Whether the outermost type is marked non-null. -/
def isNonNull : Wrapping → Bool
  | named nonNull | list nonNull _ => nonNull

/-- Whether the type at a level is marked non-null. Levels below the name are not. -/
def isNonNullAt : Wrapping → Nat → Bool
  | w, 0 => w.isNonNull
  | named _, _ + 1 => false
  | list _ items, level + 1 => items.isNonNullAt level

/-- The marks of all levels as one number. -/
def mask : Wrapping → Nat
  | named nonNull => nonNull.toNat
  | list nonNull items => nonNull.toNat + 2 * items.mask

/-- The same type marked non-null. -/
def nonNull : Wrapping → Wrapping
  | named _ => named true
  | list _ items => list true items

end Wrapping

/-- A reference to a type. -/
structure TypeRef where
  name : Token
  wrapping : Wrapping
  span : Span
deriving DecidableEq, Repr, Inhabited

namespace TypeRef

/-- The number of lists around the name. -/
def dimensions (t : TypeRef) : Nat := t.wrapping.dimensions

/-- The marks of all levels as one number. -/
def mask (t : TypeRef) : Nat := t.wrapping.mask

/-- Whether there is a list around the name. -/
def isList (t : TypeRef) : Bool := decide (0 < t.dimensions)

/-- The bit of a level, among the 64 that a mask has. -/
def bit? (level : Nat) : Option Nat := if level < 64 then some (1 <<< level) else none

/-- Whether the type at a level is marked non-null: there is such a level, and its bit is set. -/
def isNonNullAt (t : TypeRef) (level : Nat) : Bool :=
  decide (level ≤ t.dimensions) && (bit? level).any fun bit => t.mask &&& bit != 0

/-- Whether the type as a whole is marked non-null. -/
def isNonNull (t : TypeRef) : Bool := t.isNonNullAt 0

end TypeRef

end GraphQLSyntax
