import GraphQLSyntax.Proofs.Grammar.Placed

/-!
# Accepted texts are the terminals of their trees

* `Convention.reading_within_exact`: in a text that is not too long, every bracket counts.
* `Document.inSourceOrder`: operations and fragments, merged by where they start.
* `Document.interleaved_of_parse`: an accepted text is made of the terminals of its definitions in
  this order, with gaps between them.
-/

namespace GraphQLSyntax

/-! ## Counting brackets -/

/-- Where there are not too many brackets, the reader counts them all. -/
theorem Convention.reading_within_exact {bound : Nat} (h : bound < UInt32.size) :
    reading.Within bound exact := by
  refine ⟨fun brackets lists hle _ hcounts => ?_, fun homits => homits⟩
  have hlt : brackets < UInt32.size := Nat.lt_of_le_of_lt hle h
  rw [← hcounts, Reader.countedLists, Nat.mod_eq_of_lt hlt]
  rfl

/-- There are no more pieces than bytes. -/
theorem Laid.length_le {k k' : Cursor} {pieces : List Piece} (h : Laid k pieces k') :
    k.position.byteOffset + pieces.length ≤ k'.position.byteOffset := by
  induction pieces generalizing k with
  | nil =>
    cases h
    exact Nat.le_refl _
  | cons p ps ih =>
    obtain ⟨hp, -, h⟩ := h
    have hlt := (Laid.single hp).offset_lt (List.cons_ne_nil _ _)
    have hle := k.byteOffset_le_skipTrivia
    have := ih h
    rw [List.length_cons]
    omega

/-! ## The order of definitions -/

section

variable {α : Type} {le : α → α → Bool} {xs ys : List α} {x : α}

theorem merge_cons_left (h : ∀ y ∈ ys, le x y) :
    List.merge (x :: xs) ys le = x :: List.merge xs ys le := by
  cases ys with
  | nil => simp
  | cons y ys => rw [List.cons_merge_cons, if_pos (h y (by simp))]

theorem merge_cons_right (h : ∀ a ∈ xs, le a x = false) :
    List.merge xs (x :: ys) le = x :: List.merge xs ys le := by
  cases xs with
  | nil => simp
  | cons a xs => rw [List.cons_merge_cons, if_neg (by rw [h a (by simp)]; decide)]

/-- Sorted lists are merged from any two parts of them. -/
theorem merge_filter (p : α → Bool) {l : List α}
    (h : l.Pairwise fun a b => le a b ∧ le b a = false) :
    List.merge (l.filter p) (l.filter fun a => !p a) le = l := by
  induction h with
  | nil => simp
  | @cons a l hmem _ ih =>
    by_cases ha : p a
    · rw [List.filter_cons_of_pos ha, List.filter_cons_of_neg (by simp [ha]), merge_cons_left, ih]
      intro b hb
      exact (hmem b (List.mem_of_mem_filter hb)).1
    · rw [List.filter_cons_of_neg ha, List.filter_cons_of_pos (by simp [ha]), merge_cons_right, ih]
      intro b hb
      exact (hmem b (List.mem_of_mem_filter hb)).2

end

/-- Whether a definition starts no later than another. -/
def Definition.startsBy (a b : Definition) : Bool :=
  decide (a.span.start.byteOffset ≤ b.span.start.byteOffset)

namespace Document

variable {text : String} {d : Document}

/-- The operations and the fragments, merged by where they start. -/
def inSourceOrder (d : Document) : List Definition :=
  List.merge (d.operations.map .operation) (d.fragments.map .fragment) Definition.startsBy

theorem operations_map (d : Document) : d.operations.map .operation =
    d.definitions.filter fun x => x.operation?.isSome := by
  unfold operations
  induction d.definitions with
  | nil => rfl
  | cons x xs ih =>
    cases x with
    | operation o => exact congrArg (Definition.operation o :: ·) ih
    | fragment f => exact ih

theorem fragments_map (d : Document) : d.fragments.map .fragment =
    d.definitions.filter fun x => !x.operation?.isSome := by
  unfold fragments
  induction d.definitions with
  | nil => rfl
  | cons x xs ih =>
    cases x with
    | operation o => exact ih
    | fragment f => exact congrArg (Definition.fragment f :: ·) ih

/-- The definitions of a written document start one behind the other. -/
theorem SpelledBy.pairwise_start {pieces : List Piece} {k : Cursor}
    (h : SpelledBy text d pieces k) :
    d.definitions.Pairwise fun a b => a.span.start.byteOffset < b.span.start.byteOffset := by
  refine h.pairwise.imp_of_mem fun {a b} ha _ hab => Nat.lt_of_lt_of_le ?_ hab
  obtain ⟨_, pieces, _, hk, hlaid, hspelled⟩ :=
    h.writtenIn (.node a.node) (List.mem_map_of_mem ha)
  have hspan := hspelled.span_eq hlaid a.span (by cases a <;> rfl)
  rw [hspan]
  exact hlaid.offset_lt hspelled.ne_nil

/-- In a written document, this is the order in which the definitions were read. -/
theorem SpelledBy.inSourceOrder_eq {pieces : List Piece} {k : Cursor}
    (h : SpelledBy text d pieces k) : d.inSourceOrder = d.definitions := by
  unfold inSourceOrder
  rw [operations_map, fragments_map]
  refine merge_filter _ (h.pairwise_start.imp fun hab => ?_)
  unfold Definition.startsBy
  rw [decide_eq_true_eq, decide_eq_false_iff_not]
  omega

/-- **Accepted texts are the terminals of their trees.** A text that is accepted, of fewer than
`UInt32.size` bytes, is made of the terminals of its operations and fragments, in the order in which
these start, with gaps between them. -/
theorem interleaved_of_parse (hsize : Text.byteLength text.toList < UInt32.size)
    (h : Document.parse text = .ok d) :
    ∃ pieces cs gap, Item.Spelled .exact (d.inSourceOrder.map Definition.item) pieces ∧
      text.toList = cs ++ gap ∧ Spaced (pieces.map Piece.chars) cs ∧ Gap gap [] := by
  obtain ⟨pieces, k, hspelled⟩ := spelled_of_parse h
  obtain ⟨cs, hrest, hspaced, hoffset⟩ := hspelled.laid.spaced
  obtain ⟨gap, hgaprest, hgap, -, -⟩ := k.gap_skipTrivia
  rw [hspelled.rest_eq] at hgaprest hgap
  rw [List.append_nil] at hgaprest
  refine ⟨pieces, cs, gap, ?_, ?_, hspaced, hgap⟩
  · rw [hspelled.inSourceOrder_eq]
    refine hspelled.spelled.mono (Convention.reading_within_exact (Nat.lt_of_le_of_lt ?_ hsize))
      (Nat.le_refl _)
    have hlength := hspelled.laid.length_le
    have hend := (hspelled.laid.reaches (Cursor.reaches_ofText text)).byteLength_rest
    omega
  · rw [← hgaprest]
    exact hrest

/-- A fragment in front of an operation that is written without a body. -/
theorem interleaved_of_parse_fragment : ∃ text d,
    text = "fragment F on T @a \x7b f(x: [1, A]) \x7d # \n query Q($x: [[T!]!])" ∧
      Text.byteLength text.toList < UInt32.size ∧ Document.parse text = .ok d ∧
      ∃ pieces cs gap, Item.Spelled .exact (d.inSourceOrder.map Definition.item) pieces ∧
        text.toList = cs ++ gap ∧ Spaced (pieces.map Piece.chars) cs ∧ Gap gap [] := by
  refine ⟨"fragment F on T @a \x7b f(x: [1, A]) \x7d # \n query Q($x: [[T!]!])", ?_⟩
  have hsize : Text.byteLength
      "fragment F on T @a \x7b f(x: [1, A]) \x7d # \n query Q($x: [[T!]!])".toList <
        UInt32.size := by
    decide +kernel
  have hok : (Document.parse
      "fragment F on T @a \x7b f(x: [1, A]) \x7d # \n query Q($x: [[T!]!])").isOk = true := by
    decide +kernel
  cases hparse : Document.parse
      "fragment F on T @a \x7b f(x: [1, A]) \x7d # \n query Q($x: [[T!]!])" with
  | error e =>
    rw [hparse] at hok
    cases hok
  | ok d => exact ⟨d, rfl, hsize, rfl, interleaved_of_parse hsize hparse⟩

end Document

end GraphQLSyntax
