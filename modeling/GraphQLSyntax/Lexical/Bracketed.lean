import GraphQLSyntax.Lexical.Ignorable
import GraphQLSyntax.Tree.TypeRef

/-!
# The brackets of a type

Around the name of a type, `[` opens a list and `]` closes it, and `!` marks the type before it as
non-null. White space and commas may stand among them, but no comments.

* `openings`, `closings`: the brackets before and behind a name.
* `Wrapping.ofClosings`: the lists and marks that brackets behind a name stand for.
-/

namespace GraphQLSyntax

namespace Lexical

/-- The further opening brackets that a text starts with. -/
def openings (cs : List Char) : List Char := cs.takeWhile fun c => c == '[' || isIgnorable c

/-- The marks and closing brackets that a text starts with, where `lists` are open. No bracket is
taken once all are closed. -/
def closings (lists : Nat) : List Char → List Char
  | [] => []
  | c :: cs =>
    if c = '!' ∨ isIgnorable c then c :: closings lists cs
    else if c = ']' then
      match lists with
      | 0 => []
      | lists + 1 => c :: closings lists cs
    else []

/-- Brackets and marks without the white space behind the last of them. -/
def trimmed (taken : List Char) : List Char := (taken.reverse.dropWhile isIgnorable).reverse

theorem closings_isPrefix (lists : Nat) (cs : List Char) : closings lists cs <+: cs := by
  fun_induction closings lists cs with
  | case1 => exact List.nil_prefix
  | case2 _ _ _ _ ih => exact List.cons_prefix_cons.mpr ⟨rfl, ih⟩
  | case3 => exact List.nil_prefix
  | case4 _ _ _ ih => exact List.cons_prefix_cons.mpr ⟨rfl, ih⟩
  | case5 => exact List.nil_prefix

end Lexical

/-- A type with one more bracket or mark behind it. -/
def Wrapping.close (w : Wrapping) (c : Char) : Wrapping :=
  if c = '!' then w.nonNull else if c = ']' then .list false w else w

/-- The type that the brackets and marks behind a name make of it. -/
def Wrapping.ofClosings (taken : List Char) : Wrapping := taken.foldl close (.named false)

end GraphQLSyntax
