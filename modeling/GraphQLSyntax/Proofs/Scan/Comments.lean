import GraphQLSyntax.Proofs.Scan.Trivia

/-!
# Texts without their comments

* `Text.withoutComments`: what is left of a text when every `#` starts a comment.
* `Text.filter_withoutComments_gap`: of a gap in front of a text, no lexeme is left.
-/

namespace GraphQLSyntax

namespace Text

/-- The characters of a text outside its comments, where it starts inside a comment or not. A
comment runs from `#` up to the end of its line. -/
def outsideComments : (inside : Bool) → List Char → List Char
  | _, [] => []
  | true, c :: cs =>
    if isLineBreak c then c :: outsideComments false cs else outsideComments true cs
  | false, c :: cs =>
    if c = '#' then outsideComments true cs else c :: outsideComments false cs

/-- A text without its comments. -/
def withoutComments (cs : List Char) : List Char := outsideComments false cs

variable {cs body gap rest : List Char} {p : Char → Bool}

@[simp] theorem withoutComments_nil : withoutComments [] = [] := rfl

theorem withoutComments_cons {c : Char} (h : c ≠ '#') (cs : List Char) :
    withoutComments (c :: cs) = c :: withoutComments cs := by
  rw [withoutComments, outsideComments, if_neg h]
  rfl

theorem withoutComments_append (h : '#' ∉ cs) (rest : List Char) :
    withoutComments (cs ++ rest) = cs ++ withoutComments rest := by
  induction cs with
  | nil => rfl
  | cons c cs ih =>
    rw [List.mem_cons, not_or] at h
    rw [List.cons_append, withoutComments_cons (Ne.symm h.1), ih h.2, List.cons_append]

/-- A comment is left out up to the end of its line. -/
theorem withoutComments_comment (hbody : ∀ c ∈ body, isLineBreak c = false)
    (hend : ∀ c ∈ rest.head?, isLineBreak c) :
    withoutComments ('#' :: (body ++ rest)) = withoutComments rest := by
  have hinside : outsideComments true (body ++ rest) = withoutComments rest := by
    induction body with
    | nil =>
      cases rest with
      | nil => rfl
      | cons c cs =>
        have hc : isLineBreak c := hend c rfl
        rw [List.nil_append, outsideComments, if_pos hc, withoutComments_cons]
        · rfl
        · rintro rfl
          cases hc
    | cons c body ih =>
      rw [List.cons_append, outsideComments, if_neg (by simp [hbody c (by simp)])]
      exact ih fun d hd => hbody d (by simp [hd])
  rw [withoutComments, outsideComments, if_pos rfl, hinside]

/-- Nothing is left of a gap but characters that carry no meaning. -/
theorem filter_withoutComments_gap (hp : ∀ c, Lexical.isGap c → p c = false) (h : Gap gap rest) :
    (withoutComments (gap ++ rest)).filter p = (withoutComments rest).filter p := by
  induction h with
  | nil => rfl
  | @ignorable c gap rest hc h ih =>
    have hne : c ≠ '#' := by
      rintro rfl
      cases hc
    rw [List.cons_append, withoutComments_cons hne, List.filter_cons_of_neg (by simp [hp c hc]), ih]
  | comment hbody hend h ih =>
    rw [List.cons_append, List.append_assoc, withoutComments_comment hbody hend, ih]

end Text

end GraphQLSyntax
