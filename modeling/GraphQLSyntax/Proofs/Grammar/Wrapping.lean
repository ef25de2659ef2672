import GraphQLSyntax.Proofs.Grammar.Marks

/-!
# What the brackets of a type stand for

* `Wrapping.closed_ofClosings`: the lists and marks that brackets stand for are closed by them.
* `Wrapping.Closed.ofClosings_eq`: brackets that close lists and marks stand for them.
* `Wrapping.dimensions_ofClosings`: every closing bracket is a list.
-/

namespace GraphQLSyntax.Wrapping

variable {w : Wrapping} {marks taken : List Char}

theorem close_ignorable {c : Char} (h : Lexical.isIgnorable c) (w : Wrapping) : w.close c = w := by
  have hmark : c ≠ '!' := by
    rintro rfl
    exact absurd h (by decide)
  have hbracket : c ≠ ']' := by
    rintro rfl
    exact absurd h (by decide)
  rw [close, if_neg hmark, if_neg hbracket]

theorem foldl_close_marks (taken : List Char) (w : Wrapping) :
    taken.foldl close w = (Lexical.marks taken).foldl close w := by
  induction taken generalizing w with
  | nil => rfl
  | cons c cs ih =>
    rw [List.foldl_cons, ih, Lexical.marks, Lexical.marks]
    by_cases hc : Lexical.isIgnorable c
    · rw [close_ignorable hc, List.filter_cons_of_neg (by simp [hc])]
    · rw [List.filter_cons_of_pos (by simp [hc]), List.foldl_cons]

theorem dimensions_nonNull (w : Wrapping) : w.nonNull.dimensions = w.dimensions := by
  cases w <;> rfl

theorem dimensions_foldl_close (taken : List Char) (w : Wrapping) :
    (taken.foldl close w).dimensions = w.dimensions + taken.count ']' := by
  induction taken generalizing w with
  | nil => rfl
  | cons c cs ih =>
    rw [List.foldl_cons, ih, close]
    split
    · rename_i h
      rw [dimensions_nonNull, h, List.count_cons_of_ne (by decide)]
    · split
      · rename_i h
        rw [h, List.count_cons_self, dimensions]
        omega
      · rename_i h
        rw [List.count_cons_of_ne h]

/-- Every closing bracket is a list. -/
theorem dimensions_ofClosings (taken : List Char) :
    (ofClosings taken).dimensions = taken.count ']' := by
  rw [ofClosings, dimensions_foldl_close, dimensions, Nat.zero_add]

/-! ## From brackets to lists -/

theorem Closed.nonNull (h : w.Closed marks) : w.nonNull.Closed (marks ++ ['!']) := by
  have hmarks {nonNull : Bool} {marks : List Char} (h : Marks nonNull marks) :
      Marks true (marks ++ ['!']) := by
    refine ⟨?_, by simp⟩
    intro c hc
    rcases List.mem_append.mp hc with hc | hc
    · exact h.1 c hc
    · exact List.mem_singleton.mp hc
  cases h with
  | named h => exact .named (hmarks h)
  | @list nonNull items closings marks hitems h =>
    rw [List.append_assoc, List.cons_append]
    exact .list hitems (hmarks h)

theorem Closed.foldl_close {more : List Char} (h : w.Closed marks)
    (hmore : ∀ c ∈ more, c = ']' ∨ c = '!') : (more.foldl close w).Closed (marks ++ more) := by
  induction more generalizing w marks with
  | nil => rwa [List.append_nil]
  | cons c cs ih =>
    rw [List.append_cons, List.foldl_cons]
    refine ih ?_ fun d hd => hmore d (by simp [hd])
    rcases hmore c (by simp) with rfl | rfl
    · exact .list h ⟨by simp, by simp⟩
    · exact h.nonNull

/-- The lists and marks that brackets stand for are closed by them. -/
theorem closed_ofClosings (h : ∀ c ∈ taken, Lexical.isIgnorable c ∨ c = ']' ∨ c = '!') :
    (ofClosings taken).Closed (Lexical.marks taken) := by
  rw [ofClosings, foldl_close_marks]
  have hnamed : (Wrapping.named false).Closed [] := .named ⟨by simp, by simp⟩
  refine hnamed.foldl_close fun c hc => ?_
  rw [Lexical.marks, List.mem_filter] at hc
  exact (h c hc.1).resolve_left (by simpa using hc.2)

/-! ## From lists to brackets -/

theorem foldl_close_exclamations (h : ∀ c ∈ marks, c = '!') (hne : marks ≠ []) (w : Wrapping) :
    marks.foldl close w = w.nonNull := by
  induction marks generalizing w with
  | nil => exact absurd rfl hne
  | cons c cs ih =>
    have hc : c = '!' := h c (by simp)
    rw [List.foldl_cons, close, if_pos hc]
    by_cases hcs : cs = []
    · rw [hcs]
      rfl
    · rw [ih (fun d hd => h d (by simp [hd])) hcs]
      cases w <;> rfl

theorem Closed.foldl_eq (h : w.Closed marks) : marks.foldl close (.named false) = w := by
  have hmarks {nonNull : Bool} {marks : List Char} (h : Marks nonNull marks) (w : Wrapping) :
      marks.foldl close w = if nonNull then w.nonNull else w := by
    cases nonNull with
    | true => exact foldl_close_exclamations h.1 (h.2.mp rfl) w
    | false =>
      have hnil : marks = [] := by
        by_contra hne
        exact absurd (h.2.mpr hne) (by decide)
      rw [hnil]
      rfl
  induction h with
  | @named nonNull marks h =>
    rw [hmarks h]
    cases nonNull <;> rfl
  | @list nonNull items closings marks _ h ih =>
    rw [List.foldl_append, ih, List.foldl_cons, hmarks h]
    cases nonNull <;> rfl

/-- Brackets that close some lists and marks stand for them. -/
theorem Closed.ofClosings_eq (h : w.Closed (Lexical.marks taken)) : ofClosings taken = w := by
  rw [ofClosings, foldl_close_marks, h.foldl_eq]

theorem Closed.mem (h : w.Closed marks) : ∀ c ∈ marks, c = ']' ∨ c = '!' := by
  induction h with
  | named h => exact fun c hc => .inr (h.1 c hc)
  | list _ h ih =>
    intro c hc
    rcases List.mem_append.mp hc with hc | hc
    · exact ih c hc
    · rcases List.mem_cons.mp hc with rfl | hc
      · exact .inl rfl
      · exact .inr (h.1 c hc)

end GraphQLSyntax.Wrapping
