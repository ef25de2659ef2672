import Mathlib.Data.List.TakeWhile
import GraphQLSyntax.Lexical.Bracketed
import GraphQLSyntax.Proofs.Tree.WellFormed

/-!
# The brackets of a type

* `marks`: the brackets and marks among ignorable characters.
* `trimmed_append_cons`: what is trimmed ends at the last of them.
* `count_closings_le`: no more lists are closed than were opened.
-/

namespace GraphQLSyntax

namespace Lexical

/-- The brackets and marks among ignorable characters. -/
def marks (taken : List Char) : List Char := taken.filter fun c => !isIgnorable c

theorem marks_append (taken more : List Char) : marks (taken ++ more) = marks taken ++ marks more :=
  List.filter_append ..

theorem marks_eq_nil {ignored : List Char} (h : ∀ c ∈ ignored, isIgnorable c) :
    marks ignored = [] := by
  simpa [marks] using h

theorem marks_replicate (n : Nat) : marks (List.replicate n ']') = List.replicate n ']' :=
  List.filter_replicate_of_pos rfl

theorem trimmed_eq_nil {ignored : List Char} (h : ∀ c ∈ ignored, isIgnorable c) :
    trimmed ignored = [] := by
  rw [trimmed, List.dropWhile_eq_nil_iff.mpr (by simpa using h), List.reverse_nil]

/-- Nothing is trimmed up to a bracket or a mark. -/
theorem trimmed_append_cons {c : Char} (h : isIgnorable c = false) (before behind : List Char) :
    trimmed (before ++ c :: behind) = before ++ c :: trimmed behind := by
  unfold trimmed
  rw [List.reverse_append, List.reverse_cons, List.append_assoc, List.dropWhile_append]
  split
  · rename_i hnil
    rw [List.isEmpty_iff.mp hnil, List.singleton_append, List.dropWhile_cons_of_neg (by simp [h])]
    simp
  · simp

/-- What is trimmed away is ignorable. -/
theorem trimmed_append (taken : List Char) :
    ∃ ignored, taken = trimmed taken ++ ignored ∧ ∀ c ∈ ignored, isIgnorable c := by
  refine ⟨(taken.reverse.takeWhile isIgnorable).reverse, ?_, ?_⟩
  · rw [trimmed, ← List.reverse_append, List.takeWhile_append_dropWhile, List.reverse_reverse]
  · intro c hc
    exact List.mem_takeWhile_imp (List.mem_reverse.mp hc)

/-- White space behind the last bracket or mark does not matter to what is trimmed. -/
theorem trimmed_append_ignorable {ignored : List Char} (h : ∀ c ∈ ignored, isIgnorable c)
    (taken : List Char) : trimmed (taken ++ ignored) = trimmed taken := by
  unfold trimmed
  rw [List.reverse_append, List.dropWhile_append_of_pos (by simpa using h)]

theorem isIgnorable_mark {c : Char} (h : c = '[' ∨ c = ']' ∨ c = '!') : isIgnorable c = false := by
  rcases h with rfl | rfl | rfl <;> rfl

/-! ## Opening brackets -/

theorem openings_append (cs : List Char) :
    cs = openings cs ++ cs.drop (openings cs).length :=
  (List.prefix_iff_eq_append.mp (List.takeWhile_prefix _)).symm

theorem mem_openings {cs : List Char} {c : Char} (h : c ∈ openings cs) :
    isIgnorable c ∨ c = '[' := by
  have := List.mem_takeWhile_imp h
  simpa [or_comm] using this

theorem marks_openings (cs : List Char) :
    marks (openings cs) = List.replicate ((openings cs).count '[') '[' := by
  have hmem : ∀ c ∈ openings cs, isIgnorable c ∨ c = '[' := fun c => mem_openings
  generalize openings cs = taken at hmem
  induction taken with
  | nil => rfl
  | cons c cs ih =>
    have ih := ih fun d hd => hmem d (by simp [hd])
    rcases hmem c (by simp) with h | rfl
    · have hne : c ≠ '[' := by
        rintro rfl
        exact absurd h (by decide)
      rw [marks, List.filter_cons_of_neg (by simp [h]), List.count_cons_of_ne hne, ← ih, marks]
    · rw [marks, List.filter_cons_of_pos (by decide), List.count_cons_self, List.replicate_succ,
        ← ih, marks]

/-- Opening brackets are taken up to the first character that is neither ignorable nor one more of
them. -/
theorem openings_eq {taken rest : List Char} (h : ∀ c ∈ taken, isIgnorable c ∨ c = '[')
    (hrest : ∀ c ∈ rest.head?, isIgnorable c = false ∧ c ≠ '[') :
    openings (taken ++ rest) = taken := by
  unfold openings
  rw [List.takeWhile_append_of_pos (by simpa [or_comm] using h)]
  cases rest with
  | nil => simp
  | cons c cs =>
    obtain ⟨hc, hne⟩ := hrest c rfl
    rw [List.takeWhile_cons_of_neg (by simp [hc, hne]), List.append_nil]

/-! ## Closing brackets and marks -/

theorem closings_append (lists : Nat) (cs : List Char) :
    cs = closings lists cs ++ cs.drop (closings lists cs).length :=
  (List.prefix_iff_eq_append.mp (closings_isPrefix lists cs)).symm

theorem mem_closings {lists : Nat} {cs : List Char} {c : Char} (h : c ∈ closings lists cs) :
    isIgnorable c ∨ c = ']' ∨ c = '!' := by
  fun_induction closings lists cs with
  | case1 => cases h
  | case2 _ d cs hd ih =>
    rcases List.mem_cons.mp h with rfl | h
    · exact hd.elim (fun h => .inr (.inr h)) .inl
    · exact ih h
  | case3 => cases h
  | case4 cs _ lists ih =>
    rcases List.mem_cons.mp h with rfl | h
    · exact .inr (.inl rfl)
    · exact ih h
  | case5 => cases h

/-- White space and marks are taken with the brackets, so none are left behind them. -/
theorem head_behind_closings (lists : Nat) (cs : List Char) :
    ∀ c ∈ (cs.drop (closings lists cs).length).head?, isIgnorable c = false ∧ c ≠ '!' := by
  fun_induction closings lists cs with
  | case1 => simp
  | case2 lists c cs hc ih => exact ih
  | case3 cs hc =>
    rintro _ ⟨⟩
    decide
  | case4 cs hc lists ih => exact ih
  | case5 lists c cs hc hclose =>
    rintro _ ⟨⟩
    obtain ⟨hmark, hignorable⟩ := not_or.mp hc
    exact ⟨by simpa using hignorable, hmark⟩

theorem dropWhile_behind_closings (lists : Nat) (cs : List Char) :
    (cs.drop (closings lists cs).length).dropWhile isIgnorable =
      cs.drop (closings lists cs).length := by
  have hhead := head_behind_closings lists cs
  cases hbehind : cs.drop (closings lists cs).length with
  | nil => rfl
  | cons c rest =>
    rw [hbehind] at hhead
    exact List.dropWhile_cons_of_neg (by simp [(hhead c rfl).1])

/-- No more lists are closed than are open. -/
theorem count_closings_le (lists : Nat) (cs : List Char) :
    (closings lists cs).count ']' ≤ lists := by
  fun_induction closings lists cs with
  | case1 => exact Nat.zero_le _
  | case2 lists c cs hc ih =>
    rw [List.count_cons_of_ne]
    · exact ih
    · rintro rfl
      exact absurd hc (by decide)
  | case3 => exact Nat.zero_le _
  | case4 cs _ lists ih =>
    rw [List.count_cons_self]
    exact Nat.succ_le_succ ih
  | case5 => exact Nat.zero_le _

/-- Brackets and marks that close all lists are taken up to the first character that is neither
ignorable nor one more mark. -/
theorem closings_eq {lists : Nat} {taken rest : List Char}
    (h : ∀ c ∈ taken, isIgnorable c ∨ c = ']' ∨ c = '!') (hcount : taken.count ']' = lists)
    (hrest : ∀ c ∈ rest.head?, isIgnorable c = false ∧ c ≠ '!') :
    closings lists (taken ++ rest) = taken := by
  induction taken generalizing lists with
  | nil =>
    obtain rfl : 0 = lists := hcount
    cases rest with
    | nil => rfl
    | cons c cs =>
      obtain ⟨hc, hne⟩ := hrest c rfl
      rw [List.nil_append]
      unfold closings
      rw [if_neg (by simp [hc, hne])]
      split <;> rfl
  | cons c cs ih =>
    have hcs : ∀ d ∈ cs, isIgnorable d ∨ d = ']' ∨ d = '!' := fun d hd => h d (by simp [hd])
    rw [List.cons_append]
    unfold closings
    by_cases hc : c = ']'
    · subst hc
      rw [List.count_cons_self] at hcount
      subst hcount
      rw [if_neg (by decide), if_pos rfl]
      dsimp only
      rw [ih hcs rfl]
    · rw [List.count_cons_of_ne hc] at hcount
      have hc' : c = '!' ∨ isIgnorable c := by
        rcases h c (by simp) with hc' | hc' | hc'
        · exact .inr hc'
        · exact absurd hc' hc
        · exact .inl hc'
      rw [if_pos hc', ih hcs hcount]

end Lexical

end GraphQLSyntax
