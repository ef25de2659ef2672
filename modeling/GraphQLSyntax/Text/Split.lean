/-!
# Splitting

* `split`: the pieces of a text between the places where a character stands. There is one more piece
  than there are such places, and pieces may be empty.
-/

namespace GraphQLSyntax.Text

/-- The pieces of a text between the occurrences of `separator`. -/
def split (separator : Char) : List Char → List (List Char)
  | [] => [[]]
  | c :: cs =>
    if c = separator then [] :: split separator cs
    else match split separator cs with
      | [] => [[c]]
      | piece :: pieces => (c :: piece) :: pieces

/-- The pieces of a text, as texts. -/
def pieces (separator : Char) (text : String) : List String :=
  (split separator text.toList).map String.ofList

/-- Putting the separator back between the pieces gives the text. -/
theorem intercalate_split (separator : Char) (cs : List Char) :
    [separator].intercalate (split separator cs) = cs := by
  induction cs with
  | nil => rfl
  | cons c cs ih =>
    unfold split
    have hne : split separator cs ≠ [] := by
      cases cs with
      | nil => simp [split]
      | cons d ds =>
        unfold split
        split
        · simp
        · split <;> simp
    obtain ⟨piece, pieces, hpieces⟩ := List.exists_cons_of_ne_nil hne
    rw [hpieces] at ih ⊢
    split
    · rename_i h
      subst h
      simpa [List.intercalate] using ih
    · cases pieces with
      | nil => simpa [List.intercalate] using congrArg (c :: ·) ih
      | cons p ps => simpa [List.intercalate] using congrArg (c :: ·) ih

end GraphQLSyntax.Text
