import GraphQLSyntax.Text.Slice
import GraphQLSyntax.Scan.Scanner

/-!
# Where cursors stand

The byte offset of a cursor counts what lies before it in the text.

* `Cursor.Reaches`: a cursor stands in a text, at the offset it says.
* `Cursor.Reaches.move`, `Cursor.Reaches.consume`: moving on keeps it there.
* `Cursor.Reaches.slice`: the text between two cursors is what the first has before the second.
-/

namespace GraphQLSyntax

theorem Text.byteLength_pos {cs : List Char} (h : cs ≠ []) : 0 < byteLength cs := by
  cases cs with
  | nil => exact absurd rfl h
  | cons c cs =>
    rw [byteLength_cons]
    have := c.utf8Size_pos
    omega

/-- A text is cut at only one place behind a number of bytes. -/
theorem Text.append_inj {cs ds cs' ds' : List Char} (h : cs ++ ds = cs' ++ ds')
    (hlength : byteLength cs = byteLength cs') : cs = cs' ∧ ds = ds' := by
  have htake := takeBytes?_append cs ds
  rw [h, hlength, takeBytes?_append, Option.some.injEq] at htake
  exact ⟨htake.symm, List.append_cancel_left (htake ▸ h)⟩

namespace Cursor

variable {text : String} {k : Cursor}

/-! ## Offsets -/

theorem byteOffset_step (k : Cursor) (c : Char) :
    (k.step c).position.byteOffset = k.position.byteOffset + c.utf8Size := by
  unfold step
  dsimp only
  split
  · rename_i h
    subst h
    rfl
  · split
    · rename_i h
      subst h
      rfl
    · rfl

theorem byteOffset_skip (k : Cursor) (c : Char) :
    (k.skip c).position.byteOffset = k.position.byteOffset + c.utf8Size := by
  unfold skip
  split
  · rfl
  · exact byteOffset_step k c

/-- Consuming a text moves the cursor by its bytes. -/
@[simp] theorem byteOffset_consume (k : Cursor) (taken : List Char) :
    (k.consume taken).position.byteOffset = k.position.byteOffset + Text.byteLength taken := by
  unfold consume
  induction taken generalizing k with
  | nil => rfl
  | cons c cs ih =>
    rw [List.foldl_cons, ih, byteOffset_step, Text.byteLength_cons]
    omega

/-- Skipping a gap moves the cursor by the bytes of the gap. -/
@[simp] theorem byteOffset_skipGap (k : Cursor) :
    k.skipGap.position.byteOffset =
      k.position.byteOffset + Text.byteLength (k.rest.takeWhile Lexical.isGap) := by
  have skipped (gap : List Char) (k : Cursor) :
      (gap.foldl skip k).position.byteOffset = k.position.byteOffset + Text.byteLength gap := by
    induction gap generalizing k with
    | nil => rfl
    | cons c cs ih =>
      rw [List.foldl_cons, ih, byteOffset_skip, Text.byteLength_cons]
      omega
  exact skipped _ _

theorem consume_append (k : Cursor) (taken more : List Char) :
    k.consume (taken ++ more) = (k.consume taken).consume more := by
  simp [consume]

@[simp] theorem consume_nil (k : Cursor) : k.consume [] = k := rfl

theorem consume_cons (k : Cursor) (c : Char) (cs : List Char) :
    k.consume (c :: cs) = (k.step c).consume cs := rfl

/-- What is left behind a character that stands at the cursor. -/
theorem rest_step_of_cons {c : Char} {cs : List Char} (h : k.rest = c :: cs) :
    (k.step c).rest = cs := by
  rw [rest_step, h, List.tail_cons]

/-- What is left behind a text that stands at the cursor. -/
theorem rest_consume_of_append {taken rest : List Char} (h : k.rest = taken ++ rest) :
    (k.consume taken).rest = rest := by
  rw [rest_consume, h, List.drop_left]

/-! ## Standing in a text -/

/-- The cursor stands in `text`, behind as many bytes as it says. -/
def Reaches (text : String) (k : Cursor) : Prop :=
  ∃ before, text.toList = before ++ k.rest ∧ k.position.byteOffset = Text.byteLength before

theorem reaches_ofText (text : String) : (ofText text).Reaches text := ⟨[], rfl, rfl⟩

/-- Any cursor that is left with less by as much as it moved stands in the text, too. -/
theorem Reaches.move {k' : Cursor} (taken : List Char) (h : k.Reaches text)
    (hrest : k.rest = taken ++ k'.rest)
    (hoffset : k'.position.byteOffset = k.position.byteOffset + Text.byteLength taken) :
    k'.Reaches text := by
  obtain ⟨before, htext, hbefore⟩ := h
  refine ⟨before ++ taken, ?_, ?_⟩
  · rw [htext, hrest, List.append_assoc]
  · rw [hoffset, hbefore, Text.byteLength_append]

theorem Reaches.consume {taken : List Char} (h : k.Reaches text) (htaken : taken <+: k.rest) :
    (k.consume taken).Reaches text := by
  obtain ⟨rest, hrest⟩ := htaken
  refine h.move taken ?_ (byteOffset_consume k taken)
  rw [rest_consume_of_append hrest.symm, hrest]

/-- What is left is what follows so many bytes. -/
theorem Reaches.drop (h : k.Reaches text) :
    Text.dropBytes? k.position.byteOffset text.toList = some k.rest := by
  obtain ⟨before, htext, hbefore⟩ := h
  rw [hbefore, htext, Text.dropBytes?_append]

/-- The offset of a cursor does not pass the end of its text. -/
theorem Reaches.byteLength_rest (h : k.Reaches text) :
    k.position.byteOffset + Text.byteLength k.rest = Text.byteLength text.toList := by
  obtain ⟨before, htext, hbefore⟩ := h
  rw [htext, hbefore, Text.byteLength_append]

/-- What a cursor has before a later one is the text between their offsets. -/
theorem Reaches.slice {k' : Cursor} {between : List Char} (h : k.Reaches text)
    (hrest : k.rest = between ++ k'.rest)
    (hoffset : k'.position.byteOffset = k.position.byteOffset + Text.byteLength between) :
    Text.slice? text k.position.byteOffset k'.position.byteOffset =
      some (String.ofList between) := by
  obtain ⟨before, htext, hbefore⟩ := h
  unfold Text.slice?
  rw [if_pos (by omega), htext, hbefore, Text.dropBytes?_append, Option.bind_some, hoffset, hrest,
    show k.position.byteOffset + Text.byteLength between - Text.byteLength before =
      Text.byteLength between by omega, Text.takeBytes?_append, Option.map_some]

end Cursor

end GraphQLSyntax
