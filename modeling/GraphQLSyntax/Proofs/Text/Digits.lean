import Mathlib.Data.List.Basic
import GraphQLSyntax.Text.Position

/-!
# Written numbers and positions

* `Text.ofNat_inj`: numbers are told apart by how they are written.
* `Position.render_inj`: so are positions, but for their offsets.
-/

namespace GraphQLSyntax

variable {m n : Nat} {c : Char} {p q : Position}

namespace Text

theorem ofNat_inj : toString m = toString n ↔ m = n := by
  refine ⟨fun h => ?_, congrArg _⟩
  rw [Nat.toString_eq_ofList_toDigits, Nat.toString_eq_ofList_toDigits, String.ofList_inj] at h
  rw [← Nat.ofDigitChars_ten_toDigits (n := m), h, Nat.ofDigitChars_ten_toDigits]

theorem isDigit_of_mem_ofNat (h : c ∈ (toString n).toList) : c.isDigit := by
  rw [Nat.toString_eq_ofList_toDigits, String.toList_ofList] at h
  exact Nat.isDigit_of_mem_toDigits (by decide) (by decide) h

end Text

namespace Position

theorem toList_render (p : Position) :
    p.render.toList = (toString p.line).toList ++ ':' :: (toString p.column).toList := by
  simp [render]

theorem mem_render (h : c ∈ p.render.toList) : c.isDigit ∨ c = ':' := by
  rw [toList_render, List.mem_append, List.mem_cons] at h
  rcases h with h | h | h
  · exact .inl (Text.isDigit_of_mem_ofNat h)
  · exact .inr h
  · exact .inl (Text.isDigit_of_mem_ofNat h)

/-- The colon stands between the line and the column, and nowhere else. -/
theorem render_inj (h : p.render = q.render) : p.line = q.line ∧ p.column = q.column := by
  have hcolon (n : Nat) : ':' ∉ (toString n).toList :=
    fun hmem => absurd (Text.isDigit_of_mem_ofNat hmem) (by decide)
  have hchars := congrArg String.toList h
  rw [toList_render, toList_render,
    List.append_cons_inj_of_notMem (hcolon _) (hcolon _)] at hchars
  exact ⟨Text.ofNat_inj.mp (String.toList_inj.mp hchars.1),
    Text.ofNat_inj.mp (String.toList_inj.mp hchars.2.2)⟩

end Position

end GraphQLSyntax
