import GraphQLSyntax.Text.Layout
import GraphQLSyntax.Text.Line
import GraphQLSyntax.Text.Quoted

/-!
# Texts on one line

* `Text.OneLine`: a text has no line breaks. Numbers have none, and in quoted texts they are
  escaped.
-/

namespace GraphQLSyntax.Text

theorem not_isLineBreak_digitChar (n : Nat) : isLineBreak n.digitChar = false := by
  simp only [isLineBreak, Bool.or_eq_false_iff, beq_eq_false_iff_ne]
  exact ⟨Nat.digitChar_ne '\n' rfl, Nat.digitChar_ne '\r' rfl⟩

/-- Digits break no line, whatever their base. -/
theorem not_isLineBreak_of_mem_toDigits {base : Nat} (hbase : 1 < base) (n : Nat) :
    ∀ c ∈ Nat.toDigits base n, isLineBreak c = false := by
  induction n using Nat.strongRecOn with
  | ind n ih =>
    by_cases hn : n < base
    · rw [Nat.toDigits_of_lt_base hn]
      simp [not_isLineBreak_digitChar]
    · have hdiv : n / base < n := Nat.div_lt_self (by omega) hbase
      rw [Nat.toDigits_of_base_le hbase (Nat.le_of_not_lt hn)]
      refine List.forall_mem_append.mpr ⟨ih _ hdiv, ?_⟩
      simp [not_isLineBreak_digitChar]

theorem all_not_isLineBreak_iff {cs : List Char} :
    (cs.all fun c => !isLineBreak c) = true ↔ ∀ c ∈ cs, isLineBreak c = false := by
  simp

/-- A text has no line breaks. -/
def OneLine (text : String) : Prop := ∀ c ∈ text.toList, isLineBreak c = false

instance (text : String) : Decidable (OneLine text) :=
  decidable_of_iff _ all_not_isLineBreak_iff

namespace OneLine

variable {a b : String}

theorem append (ha : OneLine a) (hb : OneLine b) : OneLine (a ++ b) := by
  unfold OneLine at *
  rw [String.toList_append]
  exact List.forall_mem_append.mpr ⟨ha, hb⟩

theorem blanks (n : Nat) : OneLine (Layout.blanks n) := by
  unfold OneLine Layout.blanks
  rw [String.toList_ofList]
  intro c hc
  rw [List.eq_of_mem_replicate hc]
  rfl

theorem ofNat (n : Nat) : OneLine (toString n) := by
  unfold OneLine
  rw [Nat.toString_eq_ofList_toDigits, String.toList_ofList]
  exact not_isLineBreak_of_mem_toDigits (by decide) n

/-- A line break in a quoted text is escaped. -/
theorem quoted (text : String) : OneLine (quoted text) := by
  have hchar (c : Char) : ∀ d ∈ escaped c, isLineBreak d = false := by
    unfold escaped
    split
    · exact all_not_isLineBreak_iff.mp rfl
    split
    · exact all_not_isLineBreak_iff.mp rfl
    split
    · exact all_not_isLineBreak_iff.mp rfl
    split
    · exact all_not_isLineBreak_iff.mp rfl
    rename_i hreturn hfeed
    split
    · rename_i h
      rcases h with rfl | rfl <;> exact all_not_isLineBreak_iff.mp rfl
    split
    · simp [isLineBreak, hreturn, hfeed]
    · unfold codePointEscape
      refine List.forall_mem_append.mpr ⟨List.forall_mem_append.mpr
        ⟨all_not_isLineBreak_iff.mp rfl, ?_⟩, all_not_isLineBreak_iff.mp rfl⟩
      exact not_isLineBreak_of_mem_toDigits (by decide) _
  unfold OneLine Text.quoted
  rw [String.toList_ofList]
  refine List.forall_mem_append.mpr ⟨List.forall_mem_cons.mpr ⟨rfl, ?_⟩,
    all_not_isLineBreak_iff.mp rfl⟩
  intro d hd
  obtain ⟨c, -, hd⟩ := List.mem_flatMap.mp hd
  exact hchar c d hd

theorem lineFeed_notMem (h : OneLine a) : '\n' ∉ a.toList :=
  fun hmem => absurd (h _ hmem) (by decide)

end OneLine

end GraphQLSyntax.Text
