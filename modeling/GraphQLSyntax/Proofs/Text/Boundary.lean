import GraphQLSyntax.Proofs.Scan.Offset

/-!
# Where a text may be cut

* `Text.IsBoundary`: an offset falls between two characters of a text, or at one of its ends.
* `Text.IsBoundary.exists_slice`: there is a text between two such offsets.
* `Text.Between`: the characters that stand between two offsets.
-/

namespace GraphQLSyntax.Text

variable {text : String} {i j : Nat}

/-- The first `i` bytes of a text are whole characters. -/
def IsBoundary (text : String) (i : Nat) : Prop :=
  ∃ before behind, text.toList = before ++ behind ∧ byteLength before = i

namespace IsBoundary

theorem zero (text : String) : IsBoundary text 0 := ⟨[], text.toList, rfl, rfl⟩

theorem of_reaches {k : Cursor} (h : k.Reaches text) : IsBoundary text k.position.byteOffset := by
  obtain ⟨before, htext, hbefore⟩ := h
  exact ⟨before, k.rest, htext, hbefore.symm⟩

theorem le (h : IsBoundary text i) : i ≤ byteLength text.toList := by
  obtain ⟨before, behind, htext, rfl⟩ := h
  rw [htext, byteLength_append]
  exact Nat.le_add_right _ _

/-- What follows a boundary. -/
theorem exists_drop (h : IsBoundary text i) : ∃ behind, dropBytes? i text.toList = some behind ∧
    ∀ c cs, behind = c :: cs → IsBoundary text (i + c.utf8Size) := by
  obtain ⟨before, behind, htext, rfl⟩ := h
  refine ⟨behind, by rw [htext, dropBytes?_append], ?_⟩
  rintro c cs rfl
  exact ⟨before ++ [c], cs, by rw [htext, List.append_assoc]; rfl, by simp⟩

end IsBoundary

/-- Between two offsets stand whole characters. -/
def Between (text : String) (i j : Nat) (cs : List Char) : Prop :=
  ∃ before behind, text.toList = before ++ (cs ++ behind) ∧ byteLength before = i ∧
    i + byteLength cs = j

namespace Between

variable {cs ds : List Char}

theorem nil (h : IsBoundary text i) : Between text i i [] := by
  obtain ⟨before, behind, htext, hi⟩ := h
  exact ⟨before, behind, htext, hi, rfl⟩

/-- A cursor goes past what stands there. -/
theorem of_reaches {k : Cursor} (h : k.Reaches text) (hcs : cs <+: k.rest) :
    Between text k.position.byteOffset (k.consume cs).position.byteOffset cs := by
  obtain ⟨before, htext, hbefore⟩ := h
  obtain ⟨behind, hrest⟩ := hcs
  exact ⟨before, behind, by rw [htext, hrest], hbefore.symm, (Cursor.byteOffset_consume k cs).symm⟩

theorem start_at (h : Between text i j cs) : IsBoundary text i := by
  obtain ⟨before, behind, htext, hi, -⟩ := h
  exact ⟨before, cs ++ behind, htext, hi⟩

theorem stop_at (h : Between text i j cs) : IsBoundary text j := by
  obtain ⟨before, behind, htext, rfl, hj⟩ := h
  exact ⟨before ++ cs, behind, by rw [htext, List.append_assoc], by rw [byteLength_append, hj]⟩

theorem le (h : Between text i j cs) : i ≤ j := by
  obtain ⟨before, behind, -, -, rfl⟩ := h
  exact Nat.le_add_right _ _

/-- Something stands between two offsets unless they are the same. -/
theorem lt_iff (h : Between text i j cs) : i < j ↔ cs ≠ [] := by
  obtain ⟨-, -, -, -, rfl⟩ := h
  constructor
  · rintro hlt rfl
    exact Nat.lt_irrefl _ hlt
  · exact fun hne => Nat.lt_add_of_pos_right (byteLength_pos hne)

theorem slice (h : Between text i j cs) : slice? text i j = some (String.ofList cs) := by
  obtain ⟨before, behind, htext, rfl, rfl⟩ := h
  unfold slice?
  rw [if_pos (Nat.le_add_right _ _), htext, dropBytes?_append, Option.bind_some,
    Nat.add_sub_cancel_left, takeBytes?_append, Option.map_some]

/-- What stands behind goes on. -/
theorem append {l : Nat} (h : Between text i j cs) (h' : Between text j l ds) :
    Between text i l (cs ++ ds) := by
  obtain ⟨before, behind, htext, hi, hj⟩ := h
  obtain ⟨before', behind', htext', hj', rfl⟩ := h'
  rw [← List.append_assoc] at htext
  obtain ⟨-, rfl⟩ := append_inj (htext.symm.trans htext') (by rw [byteLength_append, hi, hj, hj'])
  refine ⟨before, behind', by rw [htext, List.append_assoc, List.append_assoc], hi, ?_⟩
  rw [byteLength_append, ← Nat.add_assoc, hj]

end Between

/-- There is a text between two boundaries. -/
theorem IsBoundary.exists_slice (hi : IsBoundary text i) (hj : IsBoundary text j) (hle : i ≤ j) :
    ∃ shown, slice? text i j = some shown := by
  obtain ⟨before, behind, htext, hbefore⟩ := hi
  obtain ⟨before', behind', htext', rfl⟩ := hj
  suffices hbetween : ∃ between, before' = before ++ between by
    obtain ⟨between, rfl⟩ := hbetween
    rw [List.append_assoc] at htext'
    have : Between text i (byteLength (before ++ between)) between :=
      ⟨before, behind', htext', hbefore, by rw [byteLength_append, hbefore]⟩
    exact ⟨_, this.slice⟩
  rcases List.append_eq_append_iff.mp (htext.symm.trans htext') with
    ⟨between, hbetween, -⟩ | ⟨more, hmore, -⟩
  · exact ⟨between, hbetween⟩
  · cases more with
    | nil => exact ⟨[], by rw [hmore, List.append_nil, List.append_nil]⟩
    | cons c cs =>
      rw [← hbefore, hmore, byteLength_append, byteLength_cons] at hle
      have := c.utf8Size_pos
      omega

end GraphQLSyntax.Text
