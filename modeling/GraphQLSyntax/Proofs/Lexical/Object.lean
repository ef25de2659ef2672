import GraphQLSyntax.Proofs.Lexical.Lookahead

/-!
# Inside object literals

An object literal is gone over brace by brace and string by string. What stands between two such
steps can be told apart from what they take.

* `Over`: what is gone over in front of a text, and how many braces are open before and behind it.
* `Over.braced_eq`: an object literal is read over it.
* `Over.before`: it is gone over in front of another text, too.
* `braced_depth_unique`: how many braces are open is known from where the literal ends.
-/

namespace GraphQLSyntax.Lexical

/-- In front of `rest`, an object literal goes on over a text. The numbers are those of the braces
that are open inside it, before and behind that text. -/
inductive Over (rest : List Char) : (depth : Nat) → (taken : List Char) → (depth' : Nat) → Prop where
  | nil (depth : Nat) : Over rest depth [] depth
  | char {depth depth' : Nat} {c : Char} {taken : List Char} (hc : c ≠ '"' ∧ c ≠ '{' ∧ c ≠ '}')
    (h : Over rest depth taken depth') : Over rest depth (c :: taken) depth'
  | opened {depth depth' : Nat} {taken : List Char} (h : Over rest (depth + 1) taken depth') :
    Over rest depth ('{' :: taken) depth'
  | closed {depth depth' : Nat} {taken : List Char} (h : Over rest depth taken depth') :
    Over rest (depth + 1) ('}' :: taken) depth'
  | literal {depth depth' : Nat} {literal taken : List Char}
    (hliteral : quoted false (literal ++ (taken ++ rest)) = (.string, literal))
    (h : Over rest depth taken depth') : Over rest depth (literal ++ taken) depth'

theorem exists_quote_of_string {cs literal : List Char}
    (h : quoted false cs = (.string, literal)) : ∃ tail, cs = '"' :: tail := by
  cases cs with
  | nil => cases h
  | cons c tail =>
    by_cases hc : c = '"'
    · exact ⟨tail, by rw [hc]⟩
    · have hquotes : quotes (c :: tail) = [] := by
        rw [quotes, List.takeWhile_cons_of_neg (by simpa using hc)]
      rw [quoted, hquotes] at h
      cases h

variable {rest rest' taken : List Char} {depth depth' : Nat}

namespace Over

/-- An object literal is read over what it goes over, and then on. -/
theorem braced_eq (h : Over rest depth taken depth') :
    braced depth (taken ++ rest) = Taken.after taken (braced depth' rest) := by
  induction h with
  | nil => rfl
  | char hc _ ih =>
    rw [List.cons_append, braced_cons, if_neg hc.1, if_neg hc.2.1, if_neg hc.2.2, ih]
    rfl
  | opened _ ih =>
    rw [List.cons_append, braced_cons, if_neg (by decide), if_pos rfl, ih]
    rfl
  | closed _ ih =>
    rw [List.cons_append, braced_cons, if_neg (by decide), if_neg (by decide), if_pos rfl]
    exact congrArg (Taken.after ['}']) ih
  | @literal depth depth' literal taken hliteral _ ih =>
    obtain ⟨tail, htail⟩ := exists_quote_of_string hliteral
    have hquoted := hliteral
    rw [htail] at hquoted
    rw [List.append_assoc, htail, braced_cons, if_pos rfl, hquoted, if_neg (by rintro ⟨⟩), ← htail,
      List.drop_left, ih]
    exact congrArg (Prod.mk _) (List.append_assoc ..).symm

/-- What is gone over in front of one text is gone over in front of another that ends strings. -/
theorem before (h : Over rest depth taken depth') (hrest' : ∀ c ∈ rest'.head?, c ∈ apart) :
    Over rest' depth taken depth' := by
  induction h with
  | nil depth => exact .nil depth
  | char hc _ ih => exact .char hc ih
  | opened _ ih => exact .opened ih
  | closed _ ih => exact .closed ih
  | literal hliteral _ ih =>
    have hends : EndsAlike .string rest rest' := .cut rfl (by decide) hrest'
    exact .literal (local_quoted false _ _ _ _ hliteral (hends.behind _)) ih

end Over

/-! ## How many braces are open -/

theorem braced_ne_nil {cs : List Char} (h : (braced depth cs).1 = .object) :
    (braced depth cs).2 ≠ [] := by
  fun_induction braced depth cs with
  | case1 => cases h
  | case2 _ _ literal hliteral =>
    rw [hliteral] at h
    cases h
  | case3 _ _ _ _ ih => exact List.append_ne_nil_of_right_ne_nil _ (ih h)
  | case4 => exact List.cons_ne_nil _ _
  | case5 => exact List.cons_ne_nil _ _
  | case6 => exact List.cons_ne_nil _ _
  | case7 => exact List.cons_ne_nil _ _

/-- An object literal does not end at a brace that it goes on behind. -/
theorem after_brace_ne {cs : List Char} :
    Taken.after ['}'] (braced depth cs) ≠ (.object, ['}']) := by
  intro h
  obtain ⟨tail, htail, hbraced⟩ := after_eq_iff.mp h
  obtain rfl : tail = [] := (List.cons.inj htail).2.symm
  exact braced_ne_nil (congrArg Prod.fst hbraced) (congrArg Prod.snd hbraced)

/-- What is taken behind a front is the same where all that is taken is. -/
theorem after_inj {front : List Char} {kind : Lexeme} {r r' : Lexeme × List Char}
    (h : Taken.after front r = (kind, taken)) (h' : Taken.after front r' = (kind, taken)) :
    ∃ more, r = (kind, more) ∧ r' = (kind, more) := by
  obtain ⟨more, rfl, hmore⟩ := after_eq_iff.mp h
  obtain ⟨more', htaken, hmore'⟩ := after_eq_iff.mp h'
  obtain rfl := List.append_cancel_left htaken
  exact ⟨more, hmore, hmore'⟩

/-- How many braces are open inside an object literal is known from where it ends. -/
theorem braced_depth_unique {cs : List Char} (h : braced depth cs = (.object, taken))
    (h' : braced depth' cs = (.object, taken)) : depth = depth' := by
  fun_induction braced depth cs generalizing depth' taken with
  | case1 => cases h
  | case2 =>
    rename_i hliteral
    rw [h] at hliteral
    cases hliteral
  | case3 =>
    rename_i hliteral ih
    rw [braced_cons, if_pos rfl, if_neg hliteral] at h'
    obtain ⟨more, hmore, hmore'⟩ := after_inj h h'
    exact ih hmore hmore'
  | case4 depth tail _ ih =>
    rw [braced_cons, if_neg (by decide), if_pos rfl] at h'
    obtain ⟨more, hmore, hmore'⟩ := after_inj h h'
    exact Nat.succ.inj (ih hmore hmore')
  | case5 tail _ =>
    obtain rfl := congrArg Prod.snd h
    rw [braced_cons, if_neg (by decide), if_neg (by decide), if_pos rfl] at h'
    cases depth' with
    | zero => rfl
    | succ depth' => exact absurd h' after_brace_ne
  | case6 tail _ _ depth ih =>
    rw [braced_cons, if_neg (by decide), if_neg (by decide), if_pos rfl] at h'
    cases depth' with
    | zero =>
      obtain rfl := congrArg Prod.snd h'
      exact absurd h after_brace_ne
    | succ depth' =>
      obtain ⟨more, hmore, hmore'⟩ := after_inj h h'
      exact congrArg _ (ih hmore hmore')
  | case7 depth c tail hquote hopen hclose ih =>
    rw [braced_cons, if_neg hquote, if_neg hopen, if_neg hclose] at h'
    obtain ⟨more, hmore, hmore'⟩ := after_inj h h'
    exact ih hmore hmore'

end GraphQLSyntax.Lexical
