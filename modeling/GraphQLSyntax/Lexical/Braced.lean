import GraphQLSyntax.Lexical.Quoted

/-!
# Object literals

An object literal is kept as its text: everything from its `{` to the `}` that balances it. Braces
inside string literals do not count, and block strings may not occur.

* `braced`: what follows the opening brace of an object literal.
* `braced_isPrefix`: what is taken is how the text starts.
-/

namespace GraphQLSyntax.Lexical

/-- The rest of an object literal, with `depth` braces open inside it. It ends at its closing brace,
or is unknown where the text ends or a run of quotes opens no string. -/
def braced (depth : Nat) (cs : List Char) : Lexeme × List Char :=
  match cs with
  | [] => (.unknown, [])
  | c :: rest =>
    if c = '"' then
      let literal := quoted false (c :: rest)
      if literal.1 = .unknown then literal
      else Taken.after literal.2 (braced depth ((c :: rest).drop literal.2.length))
    else if c = '{' then Taken.after [c] (braced (depth + 1) rest)
    else if c = '}' then
      match depth with
      | 0 => (.object, [c])
      | depth + 1 => Taken.after [c] (braced depth rest)
    else Taken.after [c] (braced depth rest)
termination_by cs.length
decreasing_by
  · subst_vars
    have := List.length_pos_iff.mpr (quoted_ne_nil false rest)
    simp only [List.length_drop, List.length_cons]
    omega
  all_goals simp

/-- What an object literal takes is how the text starts. -/
theorem braced_isPrefix (depth : Nat) (cs : List Char) : (braced depth cs).2 <+: cs := by
  fun_induction braced depth cs with
  | case1 => exact List.nil_prefix
  | case2 => exact quoted_isPrefix _ _
  | case3 _ rest literal _ ih =>
    have whole := List.prefix_iff_eq_append.mp (quoted_isPrefix false ('"' :: rest))
    have h := (List.prefix_append_right_inj literal.2).mpr ih
    rwa [whole] at h
  | case4 _ _ _ ih => exact List.cons_prefix_cons.mpr ⟨rfl, ih⟩
  | case5 => exact List.cons_prefix_cons.mpr ⟨rfl, List.nil_prefix⟩
  | case6 _ _ _ _ ih => exact List.cons_prefix_cons.mpr ⟨rfl, ih⟩
  | case7 _ _ _ _ _ _ ih => exact List.cons_prefix_cons.mpr ⟨rfl, ih⟩

end GraphQLSyntax.Lexical
