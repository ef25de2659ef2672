import GraphQLSyntax.Text.Split
import GraphQLSyntax.Text.Trim

/-!
# Pieces and lines

* `Text.split_eq_splitOn`: the pieces of a text are those that splitting a list gives.
* `Text.pieces_intercalate`: texts without the separator are the pieces of what they make up with
  separators between them.
* `Text.pieces_join`: so are lines, with an empty piece behind the last line feed.
* `Text.trimEnd_lines`: without white space at the end, lines are texts with line feeds between them.
* `Text.split_append_cons`: the last piece stands behind the last separator.
* `Text.Ended`: a text of whole lines. `Text.getLast?_pieces_of_ended`: what follows such a text is
  the last line.
-/

namespace GraphQLSyntax.Text

variable {separator : Char} {lines : List String}

theorem split_eq_splitOn (separator : Char) (cs : List Char) :
    split separator cs = cs.splitOn separator := by
  induction cs with
  | nil => exact (List.splitOn_nil _).symm
  | cons c cs ih =>
    obtain ⟨piece, pieces, hpieces⟩ :=
      List.exists_cons_of_ne_nil (List.splitOn_ne_nil separator cs)
    rw [split, List.splitOn_cons_eq_if_modifyHead, ih, hpieces]
    by_cases hc : c = separator <;> simp [hc]

theorem pieces_intercalate (hne : lines ≠ []) (h : ∀ line ∈ lines, separator ∉ line.toList) :
    pieces separator ((String.singleton separator).intercalate lines) = lines := by
  have hne' : lines.map String.toList ≠ [] := by simpa using hne
  rw [pieces, split_eq_splitOn, String.toList_intercalate, String.toList_singleton,
    List.splitOn_intercalate separator (List.forall_mem_map.mpr h) hne', List.map_map]
  simp [Function.comp_def]

/-- Lines that all end in a line feed, and one behind them, are lines with line feeds between
them. -/
theorem join_lines (lines : List String) (last : String) :
    String.join (lines.map (· ++ "\n")) ++ last = "\n".intercalate (lines ++ [last]) := by
  induction lines with
  | nil => simp
  | cons line lines ih =>
    rw [List.map_cons, String.join_cons, String.append_assoc, ih, List.cons_append,
      String.intercalate_cons_of_ne_nil (by simp)]

theorem pieces_join (h : ∀ line ∈ lines, '\n' ∉ line.toList) :
    pieces '\n' (String.join (lines.map (· ++ "\n"))) = lines ++ [""] := by
  rw [← String.append_empty (s := String.join _), join_lines]
  refine pieces_intercalate (by simp) fun line hline => ?_
  rcases List.mem_append.mp hline with hline | hline
  · exact h line hline
  · rw [List.mem_singleton.mp hline]
    exact List.not_mem_nil

/-- A line feed is trimmed, and nothing before a character that is no white space. -/
theorem trimEnd_lineFeed {text : String} {front : List Char} {c : Char}
    (h : text.toList = front ++ [c]) (hc : isWhiteSpace c = false) :
    trimEnd (text ++ "\n") = text := by
  have hfeed : ("\n" : String).toList = ['\n'] := rfl
  rw [trimEnd, String.toList_append, h, hfeed, List.reverse_append, List.reverse_append,
    List.reverse_singleton, List.reverse_singleton, List.singleton_append,
    List.dropWhile_cons_of_pos (by decide), List.singleton_append,
    List.dropWhile_cons_of_neg (by simp [hc]), List.reverse_cons, List.reverse_reverse, ← h,
    String.ofList_toList]

/-- Lines that all end in a line feed, without the white space at the end. -/
theorem trimEnd_lines (h : ∀ line ∈ lines, ∃ front c, line.toList = front ++ [c] ∧
    isWhiteSpace c = false) :
    trimEnd (String.join (lines.map (· ++ "\n"))) = "\n".intercalate lines := by
  obtain rfl | ⟨before, last, hlines⟩ := List.eq_nil_or_concat lines
  · rfl
  · rw [List.concat_eq_append] at hlines
    subst hlines
    obtain ⟨front, c, hlast, hc⟩ := h last (by simp)
    have hend : (String.join (before.map (· ++ "\n")) ++ last).toList =
        (String.join (before.map (· ++ "\n"))).toList ++ front ++ [c] := by
      rw [String.toList_append, hlast, List.append_assoc]
    rw [← join_lines, ← trimEnd_lineFeed hend hc]
    simp [String.append_assoc]

/-- The last piece stands behind the last separator. -/
theorem split_append_cons {behind : List Char} (h : separator ∉ behind) (front : List Char) :
    split separator (front ++ separator :: behind) = split separator front ++ [behind] := by
  rw [split_eq_splitOn, split_eq_splitOn, List.splitOn_append_cons_self,
    List.splitOn_eq_singleton h]

theorem split_ne_nil (separator : Char) (cs : List Char) : split separator cs ≠ [] := by
  rw [split_eq_splitOn]
  exact List.splitOn_ne_nil separator cs

theorem split_eq_singleton_nil_iff {cs : List Char} : split separator cs = [[]] ↔ cs = [] := by
  constructor
  · intro h
    rw [← intercalate_split separator cs, h]
    rfl
  · rintro rfl
    rfl

/-! ## Whole lines -/

/-- There is no text behind the last line feed. -/
def Ended (text : String) : Prop := text = "" ∨ ∃ front, text = front ++ "\n"

namespace Ended

variable {a b : String} {texts : List String}

theorem lineFeed (front : String) : Ended (front ++ "\n") := .inr ⟨front, rfl⟩

theorem dash (front : String) : Ended (front ++ "-\n") :=
  .inr ⟨front ++ "-", by rw [String.append_assoc]; rfl⟩

theorem append (ha : Ended a) (hb : Ended b) : Ended (a ++ b) := by
  obtain rfl | ⟨front, rfl⟩ := hb
  · rwa [String.append_empty]
  · rw [← String.append_assoc]
    exact .lineFeed _

theorem join (h : ∀ text ∈ texts, Ended text) : Ended (String.join texts) := by
  induction texts with
  | nil => exact .inl rfl
  | cons text texts ih =>
    rw [String.join_cons]
    exact (h text (by simp)).append (ih fun text htext => h text (by simp [htext]))

theorem intercalate (h : ∀ text ∈ texts, Ended text) : Ended ("\n".intercalate texts) := by
  induction texts with
  | nil => exact .inl rfl
  | cons text texts ih =>
    have hrest := ih fun text htext => h text (by simp [htext])
    by_cases hnil : texts = []
    · subst hnil
      rw [String.intercalate_singleton]
      exact h text (by simp)
    · rw [String.intercalate_cons_of_ne_nil hnil]
      exact ((Ended.lineFeed text).append hrest)

end Ended

/-- What follows whole lines is the last line. -/
theorem getLast?_pieces_of_ended {front line : String} (hfront : Ended front)
    (hline : '\n' ∉ line.toList) : (pieces '\n' (front ++ line)).getLast? = some line := by
  obtain rfl | ⟨front, rfl⟩ := hfront
  · rw [String.empty_append, pieces, split_eq_splitOn, List.splitOn_eq_singleton hline]
    simp
  · have htext : (front ++ "\n" ++ line).toList = front.toList ++ '\n' :: line.toList := by
      simp
    rw [pieces, htext, split_append_cons hline]
    simp

end GraphQLSyntax.Text
