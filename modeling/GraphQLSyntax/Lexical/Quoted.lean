import GraphQLSyntax.Lexical.Number

/-!
# String literals

A string opens with a run of quotes. One quote opens a string, three open a block string, and two
or six are an empty string or block string on their own; no other run opens anything. The literal
ends at as many quotes in a row as opened it. A backslash takes the character after it along,
whatever it is, so an escaped quote closes nothing.

* `throughClosing?`: the text up to and with the closing quotes.
* `quoted`: the string literal a text starts with.
* `quoted_isPrefix`, `quoted_ne_nil`: what is taken is how the text starts, and is something.
* `quoted_kind`: the kinds that a literal can turn out to be.
-/

namespace GraphQLSyntax.Lexical

/-- The quotes a text starts with. -/
def quotes (cs : List Char) : List Char := cs.takeWhile (· == '"')

/-- The text up to and with the first `n` quotes in a row, of which `seen` have just gone by. -/
def throughClosing? (n : Nat) : (seen : Nat) → List Char → Option (List Char)
  | seen, [] => if n ≤ seen then some [] else none
  | seen, c :: cs =>
    if n ≤ seen then some []
    else if c = '"' then (throughClosing? n (seen + 1) cs).map (c :: ·)
    else if c = '\\' then
      match cs with
      | [] => none
      | escaped :: cs => (throughClosing? n 0 cs).map (c :: escaped :: ·)
    else (throughClosing? n 0 cs).map (c :: ·)

/-- A literal of the given kind that `n` quotes close. Without them the whole text is taken. -/
def closedBy (n : Nat) (kind : Lexeme) (opening cs : List Char) : Lexeme × List Char :=
  match throughClosing? n 0 cs with
  | some body => (kind, opening ++ body)
  | none => (.unknown, opening ++ cs)

/-- The string literal that a text starts with. Block strings are only read where `allowBlock`
says so. -/
def quoted (allowBlock : Bool) (cs : List Char) : Lexeme × List Char :=
  let opening := quotes cs
  let body := cs.drop opening.length
  match opening.length with
  | 1 => closedBy 1 .string opening body
  | 2 | 6 => (.string, opening)
  | 3 => if allowBlock then closedBy 3 .blockString opening body else (.unknown, opening)
  | _ => (.unknown, opening)

/-! ## What is taken -/

theorem quotes_append_drop (cs : List Char) : quotes cs ++ cs.drop (quotes cs).length = cs :=
  List.prefix_iff_eq_append.mp (List.takeWhile_prefix _)

theorem throughClosing?_isPrefix {n seen : Nat} {cs body : List Char}
    (h : throughClosing? n seen cs = some body) : body <+: cs := by
  fun_induction throughClosing? n seen cs generalizing body with
  | case1 => simp_all
  | case2 => simp at h
  | case3 => simp_all
  | case4 _ _ _ ih =>
    obtain ⟨b, hb, rfl⟩ := Option.map_eq_some_iff.mp h
    exact List.cons_prefix_cons.mpr ⟨rfl, ih hb⟩
  | case5 => simp at h
  | case6 _ _ _ _ _ ih =>
    obtain ⟨b, hb, rfl⟩ := Option.map_eq_some_iff.mp h
    exact List.cons_prefix_cons.mpr ⟨rfl, List.cons_prefix_cons.mpr ⟨rfl, ih hb⟩⟩
  | case7 _ _ _ _ _ _ ih =>
    obtain ⟨b, hb, rfl⟩ := Option.map_eq_some_iff.mp h
    exact List.cons_prefix_cons.mpr ⟨rfl, ih hb⟩

theorem closedBy_isPrefix (n : Nat) (kind : Lexeme) (opening cs : List Char) :
    (closedBy n kind opening cs).2 <+: opening ++ cs := by
  unfold closedBy
  split
  · rename_i h
    exact List.prefix_append_right_inj _ |>.mpr (throughClosing?_isPrefix h)
  · exact List.prefix_refl _

theorem quotes_isPrefix_closedBy (n : Nat) (kind : Lexeme) (opening cs : List Char) :
    opening <+: (closedBy n kind opening cs).2 := by
  unfold closedBy
  split <;> exact List.prefix_append _ _

/-- What a string literal takes is how the text starts. -/
theorem quoted_isPrefix (allowBlock : Bool) (cs : List Char) :
    (quoted allowBlock cs).2 <+: cs := by
  have h (n : Nat) (kind : Lexeme) :
      (closedBy n kind (quotes cs) (cs.drop (quotes cs).length)).2 <+: cs := by
    have := closedBy_isPrefix n kind (quotes cs) (cs.drop (quotes cs).length)
    rwa [quotes_append_drop] at this
  have hq : quotes cs <+: cs := List.takeWhile_prefix _
  unfold quoted
  dsimp only
  split
  · exact h _ _
  · exact hq
  · exact hq
  · split
    · exact h _ _
    · exact hq
  · exact hq

/-- Whatever becomes of the literal, the opening quotes are taken. -/
theorem quotes_isPrefix_quoted (allowBlock : Bool) (cs : List Char) :
    quotes cs <+: (quoted allowBlock cs).2 := by
  unfold quoted
  dsimp only
  split
  · exact quotes_isPrefix_closedBy _ _ _ _
  · exact List.prefix_refl _
  · exact List.prefix_refl _
  · split
    · exact quotes_isPrefix_closedBy _ _ _ _
    · exact List.prefix_refl _
  · exact List.prefix_refl _

/-- A text that starts with a quote loses at least that. -/
theorem quoted_ne_nil (allowBlock : Bool) (cs : List Char) :
    (quoted allowBlock ('"' :: cs)).2 ≠ [] := by
  intro h
  have := (quotes_isPrefix_quoted allowBlock ('"' :: cs)).length_le
  simp [h, quotes] at this

private theorem closedBy_kind (n : Nat) (kind : Lexeme) (opening cs : List Char) :
    (closedBy n kind opening cs).1 = .unknown ∨ (closedBy n kind opening cs).1 = kind := by
  unfold closedBy
  split
  · exact .inr rfl
  · exact .inl rfl

/-- A string literal is a string, a block string, or nothing known. -/
theorem quoted_kind (allowBlock : Bool) (cs : List Char) :
    (quoted allowBlock cs).1 = .unknown ∨ (quoted allowBlock cs).1 = .string ∨
      (quoted allowBlock cs).1 = .blockString := by
  unfold quoted
  dsimp only
  split
  · exact (closedBy_kind _ _ _ _).imp_right .inl
  · exact .inr (.inl rfl)
  · exact .inr (.inl rfl)
  · split
    · exact (closedBy_kind _ _ _ _).imp_right .inr
    · exact .inl rfl
  · exact .inl rfl

end GraphQLSyntax.Lexical
