import GraphQLSyntax.Text.Slice

/-!
# Texts as bytes

Two texts may be compared byte by byte. A character that lies within the bytes that they share is
one that they share.

* `Text.bytes`: the bytes that a text is encoded as.
* `Text.Agree`: two texts have their first bytes in common.
* `Text.Agree.append`: what one text starts with, the other starts with, too.
* `Text.StartAlike`: what the first three bytes of two texts tell of their first characters.
-/

namespace GraphQLSyntax.Text

variable {n : Nat} {cs ds : List Char}

/-- The bytes that a text is encoded as. -/
def bytes (cs : List Char) : List UInt8 := cs.flatMap String.utf8EncodeChar

@[simp] theorem bytes_nil : bytes [] = [] := rfl

@[simp] theorem bytes_cons (c : Char) (cs : List Char) :
    bytes (c :: cs) = String.utf8EncodeChar c ++ bytes cs := rfl

@[simp] theorem bytes_append (cs ds : List Char) : bytes (cs ++ ds) = bytes cs ++ bytes ds :=
  List.flatMap_append

@[simp] theorem length_bytes (cs : List Char) : (bytes cs).length = byteLength cs := by
  induction cs with
  | nil => rfl
  | cons c cs ih => simp [ih]

/-- No encoding of a character is the start of another's. -/
theorem eq_of_utf8EncodeChar_append {c d : Char} {xs ys : List UInt8}
    (h : String.utf8EncodeChar c ++ xs = String.utf8EncodeChar d ++ ys) : c = d := by
  have hc := ByteArray.utf8DecodeChar?_utf8EncodeChar_append (b := xs.toByteArray) (c := c)
  have hd := ByteArray.utf8DecodeChar?_utf8EncodeChar_append (b := ys.toByteArray) (c := d)
  rw [← List.toByteArray_append] at hc hd
  rw [h, hd] at hc
  exact (Option.some.inj hc).symm

/-! ## Bytes in common -/

/-- Two texts have the same first `n` bytes, or are the same where one has fewer than these. -/
def Agree (n : Nat) (cs ds : List Char) : Prop := (bytes cs).take n = (bytes ds).take n

namespace Agree

theorem symm (h : Agree n cs ds) : Agree n ds cs := Eq.symm h

/-- A character within the shared bytes starts both texts. -/
theorem cons {c : Char} (h : Agree n (c :: cs) ds) (hc : c.utf8Size ≤ n) :
    ∃ tail, ds = c :: tail ∧ Agree (n - c.utf8Size) cs tail := by
  unfold Agree at h
  rw [← String.length_utf8EncodeChar] at hc ⊢
  rw [bytes_cons, List.take_append, List.take_of_length_le hc] at h
  have hds : bytes ds = String.utf8EncodeChar c ++
      ((bytes cs).take (n - (String.utf8EncodeChar c).length) ++ (bytes ds).drop n) := by
    rw [← List.append_assoc, h, List.take_append_drop]
  cases ds with
  | nil =>
    have := congrArg List.length hds
    have hpos := c.utf8Size_pos
    rw [← String.length_utf8EncodeChar] at hpos
    rw [List.length_append] at this
    simp only [bytes_nil, List.length_nil] at this
    omega
  | cons d tail =>
    rw [bytes_cons] at hds
    obtain rfl := eq_of_utf8EncodeChar_append hds
    refine ⟨tail, rfl, ?_⟩
    rw [bytes_cons, List.take_append, List.take_of_length_le hc] at h
    exact List.append_cancel_left h

/-- What one text starts with, the other starts with, too, as far as the shared bytes go. -/
theorem append {taken rest : List Char} (h : Agree n (taken ++ rest) ds)
    (hle : byteLength taken ≤ n) :
    ∃ rest', ds = taken ++ rest' ∧ Agree (n - byteLength taken) rest rest' := by
  induction taken generalizing n ds with
  | nil => exact ⟨ds, rfl, h⟩
  | cons c cs ih =>
    rw [byteLength_cons] at hle ⊢
    obtain ⟨tail, rfl, htail⟩ := h.cons (Nat.le_of_add_right_le hle)
    obtain ⟨rest', rfl, hrest⟩ := ih htail (by omega)
    rw [Nat.sub_sub] at hrest
    exact ⟨rest', rfl, hrest⟩

theorem eq_nil (h : Agree n [] ds) (hn : 0 < n) : ds = [] := by
  cases ds with
  | nil => rfl
  | cons d ds =>
    have := congrArg List.length (Eq.symm h)
    have hpos := d.utf8Size_pos
    rw [List.length_take, length_bytes, byteLength_cons] at this
    simp only [bytes_nil, List.take_nil, List.length_nil] at this
    omega

end Agree

/-! ## The next character -/

/-- Two texts are both at their end, or start with the same character, or both with one of four
bytes. -/
inductive StartAlike : (cs ds : List Char) → Prop where
  | nil : StartAlike [] []
  | same (c : Char) (cs ds : List Char) : StartAlike (c :: cs) (c :: ds)
  | wide {c d : Char} (cs ds : List Char) (hc : c.utf8Size = 4) (hd : d.utf8Size = 4) :
    StartAlike (c :: cs) (d :: ds)

/-- If one text starts with a character of less than four bytes, the other does, too. -/
theorem StartAlike.head_eq {c : Char} (h : StartAlike cs ds) (hd : ds.head? = some c)
    (hc : c.utf8Size ≠ 4) : cs.head? = some c := by
  cases h with
  | nil => exact hd
  | same => exact hd
  | wide _ _ _ hsize =>
    obtain rfl := Option.some.inj hd
    exact absurd hsize hc

theorem StartAlike.symm (h : StartAlike cs ds) : StartAlike ds cs := by
  cases h with
  | nil => exact .nil
  | same => exact .same _ _ _
  | wide _ _ hc hd => exact .wide _ _ hd hc

/-- Three bytes tell how a text starts, unless it is with a character of four. -/
theorem Agree.startAlike (h : Agree n cs ds) (hn : 3 ≤ n) : StartAlike cs ds := by
  have hsize (c : Char) (hc : c.utf8Size ≠ 4) : c.utf8Size ≤ n := by
    have := c.utf8Size_le_four
    omega
  cases cs with
  | nil =>
    rw [h.eq_nil (by omega)]
    exact .nil
  | cons c cs =>
    by_cases hc : c.utf8Size = 4
    · cases ds with
      | nil => cases h.symm.eq_nil (by omega)
      | cons d ds =>
        by_cases hd : d.utf8Size = 4
        · exact .wide cs ds hc hd
        · obtain ⟨tail, heq, -⟩ := h.symm.cons (hsize d hd)
          obtain ⟨rfl, rfl⟩ := List.cons.inj heq
          exact .same c cs ds
    · obtain ⟨tail, rfl, -⟩ := h.cons (hsize c hc)
      exact .same c cs tail

end GraphQLSyntax.Text
