import GraphQLSyntax.Lexeme.Keyword

/-!
# Keywords by their spelling

* `KeywordTable.spelling?_of_classify`: a name is read as a keyword where it spells it.
* `KeywordTable.value_classify_eq_name`, `KeywordTable.ne_on`: a name that is read as none spells
  none.
-/

namespace GraphQLSyntax.KeywordTable

variable {table : KeywordTable} {text : String} {kind : Lexeme}

theorem spelling?_of_classify (h : table.classify text = kind) (hkind : kind ≠ .name) :
    kind ∈ table.keywords ∧ kind.spelling? = some text := by
  unfold classify at h
  cases hfind : table.keywords.find? fun k => k.spelling? == some text with
  | none =>
    rw [hfind] at h
    exact absurd h.symm hkind
  | some k =>
    rw [hfind, Option.getD_some] at h
    subst h
    exact ⟨List.mem_of_find?_eq_some hfind, by simpa using List.find?_some hfind⟩

/-- What a keyword of executable documents spells is read as that keyword. -/
theorem execution_classify_of_spelling? (h : kind ∈ execution.keywords)
    (htext : kind.spelling? = some text) : execution.classify text = kind := by
  simp only [execution, List.mem_cons, List.not_mem_nil, or_false] at h
  rcases h with rfl | rfl | rfl | rfl | rfl <;> cases htext <;> decide

theorem value_classify_eq_name (h : value.classify text ∉ [.trueValue, .falseValue, .nullValue]) :
    text ∉ ["true", "false", "null"] := by
  intro hmem
  simp only [List.mem_cons, List.not_mem_nil, or_false] at hmem
  rcases hmem with rfl | rfl | rfl <;> exact h (by decide)

/-- A name that is no keyword of values is read as none. -/
theorem value_classify_of_notMem (h : text ∉ ["true", "false", "null"]) :
    value.classify text = .name := by
  simp only [List.mem_cons, List.not_mem_nil, or_false, not_or] at h
  obtain ⟨htrue, hfalse, hnull⟩ := h
  simp [classify, value, Lexeme.spelling?, Ne.symm htrue, Ne.symm hfalse, Ne.symm hnull]

theorem ne_on (h : execution.classify text ≠ .onKeyword) : text ≠ "on" := by
  rintro rfl
  exact h (by decide)

end GraphQLSyntax.KeywordTable
