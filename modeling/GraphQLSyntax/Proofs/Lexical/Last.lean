import GraphQLSyntax.Proofs.Lexical.Object
import GraphQLSyntax.Proofs.Lexical.StringLiteral
import GraphQLSyntax.Proofs.Scan.Lines

/-!
# The last characters of lexemes

* `EndsInLine`: a text does not end on a line break.
* `number_endsInLine`: what is taken for a number never does, whatever becomes of it.
* `classify_endsInLine`: neither does any lexeme that fits a kind.
* `braced_endsInLine`: neither does an object literal.
-/

namespace GraphQLSyntax.Lexical

open Text

/-- A text does not end on a line break. -/
def EndsInLine (cs : List Char) : Prop := ∀ c ∈ cs.getLast?, inLine c

variable {cs ds taken : List Char} {c : Char}

namespace EndsInLine

theorem nil : EndsInLine [] := by
  rintro c ⟨⟩

theorem of_forall (h : ∀ c ∈ cs, inLine c) : EndsInLine cs := fun c hc =>
  h c (List.mem_of_getLast? hc)

theorem concat (cs : List Char) (h : inLine c) : EndsInLine (cs ++ [c]) := by
  simpa [EndsInLine] using h

/-- Only what stands at the end counts. -/
theorem behind (cs : List Char) (hne : ds ≠ []) (h : EndsInLine ds) : EndsInLine (cs ++ ds) := by
  rwa [EndsInLine, List.getLast?_append_of_ne_nil cs hne]

theorem append (hcs : EndsInLine cs) (hds : EndsInLine ds) : EndsInLine (cs ++ ds) := by
  by_cases hne : ds = []
  · rwa [hne, List.append_nil]
  · exact hds.behind cs hne

theorem cons (hc : inLine c) (hcs : EndsInLine cs) : EndsInLine (c :: cs) :=
  (of_forall (List.forall_mem_singleton.mpr hc)).append hcs

end EndsInLine

/-! ## Numbers -/

theorem inLine_of_ne (h : c ≠ '\n' ∧ c ≠ '\r') : inLine c := by
  simp [inLine, isLineBreak, h.1, h.2]

theorem inLine_of_single? {kind : Lexeme} (h : single? c = some kind) : inLine c := by
  refine inLine_of_ne ⟨?_, ?_⟩ <;> rintro rfl <;> cases h

theorem inLine_of_isNamePart (h : isNamePart c) : inLine c := by
  refine inLine_of_ne ⟨?_, ?_⟩ <;> rintro rfl <;> cases h

theorem inLine_of_isDigit (h : c.isDigit) : inLine c :=
  inLine_of_isNamePart (by simp [isNamePart, Char.isAlphanum, h])

theorem digits_endsInLine (cs : List Char) : EndsInLine (digits cs) :=
  .of_forall fun _ hc => inLine_of_isDigit (List.mem_takeWhile_imp hc)

theorem someDigits_endsInLine (cs : List Char) : EndsInLine (someDigits cs).2 := by
  unfold someDigits
  split
  · exact .nil
  · exact digits_endsInLine cs

theorem exponent_endsInLine (cs : List Char) : EndsInLine (exponent cs).2 := by
  unfold exponent
  split
  · exact .nil
  · split
    · rename_i hsign
      refine .cons ?_ (someDigits_endsInLine _)
      rcases hsign with rfl | rfl <;> rfl
    · exact someDigits_endsInLine _

theorem afterFraction_endsInLine (cs : List Char) : EndsInLine (afterFraction cs).2 := by
  unfold afterFraction
  split
  · exact .nil
  · split
    · rename_i hmark
      refine .cons ?_ (exponent_endsInLine _)
      rcases hmark with rfl | rfl <;> rfl
    · exact .nil

theorem fraction_endsInLine (cs : List Char) : EndsInLine (fraction cs).2 := by
  unfold fraction
  split
  · exact .nil
  · exact (digits_endsInLine cs).append (afterFraction_endsInLine _)

theorem afterInteger_endsInLine (cs : List Char) : EndsInLine (afterInteger cs).2 := by
  unfold afterInteger
  split
  · exact .nil
  · split
    · rename_i hpoint
      exact .cons (by rw [hpoint]; rfl) (fraction_endsInLine _)
    · split
      · rename_i hmark
        refine .cons ?_ (exponent_endsInLine _)
        rcases hmark with rfl | rfl <;> rfl
      · exact .nil

theorem unsigned_endsInLine (cs : List Char) : EndsInLine (unsigned cs).2 := by
  unfold unsigned
  split
  · exact .nil
  · exact .cons rfl .nil
  · exact (digits_endsInLine cs).append (afterInteger_endsInLine _)

/-- What is taken for a number ends in line, whatever becomes of it. -/
theorem number_endsInLine (cs : List Char) : EndsInLine (number cs).2 := by
  unfold number
  split
  · exact .cons rfl (unsigned_endsInLine _)
  · exact unsigned_endsInLine _

/-! ## String literals -/

theorem quotes_endsInLine (cs : List Char) : EndsInLine (quotes cs) := by
  refine .of_forall fun c hc => ?_
  obtain rfl : c = '"' := beq_iff_eq.mp (List.mem_takeWhile_imp (p := (· == '"')) hc)
  rfl

/-- A string ends with a quote. -/
theorem EndsString.exists_quote {n : Nat} (h : EndsString (n + 1) taken) :
    ∃ front, taken = front ++ ['"'] := by
  obtain ⟨strokes, rfl, -, ⟨front, rfl⟩, -⟩ := h
  refine ⟨(front ++ List.replicate n ['"']).flatten, ?_⟩
  rw [List.replicate_succ', ← List.append_assoc, List.flatten_append]
  rfl

theorem closedBy_endsInLine {n : Nat} {kind : Lexeme} {opening : List Char}
    (h : (closedBy (n + 1) kind opening cs).1 ≠ .unknown) :
    EndsInLine (closedBy (n + 1) kind opening cs).2 := by
  unfold closedBy at h ⊢
  split
  · rename_i body hbody
    obtain ⟨rest, -, hends⟩ := (throughClosing?_eq_some_iff (Nat.zero_le _)).mp hbody
    obtain ⟨front, rfl⟩ := EndsString.exists_quote hends
    rw [← List.append_assoc]
    exact .concat _ rfl
  · rename_i hnone
    rw [hnone] at h
    exact absurd rfl h

theorem quoted_endsInLine {allowBlock : Bool} (h : (quoted allowBlock cs).1 ≠ .unknown) :
    EndsInLine (quoted allowBlock cs).2 := by
  revert h
  unfold quoted
  dsimp only
  split
  · exact closedBy_endsInLine
  · exact fun _ => quotes_endsInLine cs
  · exact fun _ => quotes_endsInLine cs
  · split
    · exact closedBy_endsInLine
    · exact fun h => absurd rfl h
  · exact fun h => absurd rfl h

/-! ## Lexemes -/

/-- **A lexeme that fits a kind ends in line.** -/
theorem classify_endsInLine (h : (classify cs).1 ≠ .unknown) : EndsInLine (classify cs).2 := by
  revert h
  unfold classify
  split
  · exact fun _ => .nil
  · split
    · rename_i hsingle
      exact fun _ => .cons (inLine_of_single? hsingle) .nil
    · split
      · rename_i hhash
        subst hhash
        exact fun _ => .cons rfl (.of_forall fun _ hd => List.mem_takeWhile_imp hd)
      · split
        · exact quoted_endsInLine
        · split
          · exact fun _ => number_endsInLine _
          · split
            · rename_i hname
              exact fun _ => .cons (inLine_of_isNamePart (isNamePart_of_isNameStart hname))
                (.of_forall fun _ hd => inLine_of_isNamePart (List.mem_takeWhile_imp hd))
            · exact fun _ => .nil

/-- An object literal ends with its closing brace. -/
theorem braced_endsInLine {depth : Nat} (h : (braced depth cs).1 = .object) :
    EndsInLine (braced depth cs).2 := by
  fun_induction braced depth cs with
  | case1 => cases h
  | case2 _ _ literal hliteral =>
    rw [hliteral] at h
    cases h
  | case3 _ rest literal hliteral ih => exact (ih h).behind _ (braced_ne_nil h)
  | case4 _ _ _ ih => exact (ih h).behind ['{'] (braced_ne_nil h)
  | case5 => exact .cons rfl .nil
  | case6 _ _ _ _ ih => exact (ih h).behind ['}'] (braced_ne_nil h)
  | case7 _ c _ _ _ _ ih => exact (ih h).behind [c] (braced_ne_nil h)

end GraphQLSyntax.Lexical
