import GraphQLSyntax.Proofs.Grammar.Guarded.Document

/-!
# Printed documents that nest too deep

* `Leveled.walk_of_spaces`: where the way over terminals with spaces between them ends.
* `Document.countable`: in a text that is not too long, the brackets of all types can be counted.
* `Document.parse_print_of_tooDeep`: a document is refused at the first terminal that opens a level
  too many.
* `Document.nesting_exact`: a printed document is read back exactly where it nests no deeper than it
  may.
-/

namespace GraphQLSyntax

open Leveled

/-! ## The way over a printed text -/

namespace Leveled

variable {x : Leveled} {before after : List Leveled} {k : Cursor} {gap : List Char}

/-- The text of some terminals with a space behind each of them. -/
def text (xs : List Leveled) : List Char := xs.flatMap fun x => x.terminal.chars ++ [' ']

theorem intercalate_cons {t : List Char} {ts : List (List Char)} (hne : ts ≠ []) :
    [' '].intercalate (t :: ts) = t ++ ([' '] ++ [' '].intercalate ts) := by
  obtain ⟨u, us, rfl⟩ := List.exists_cons_of_ne_nil hne
  simp

/-- Terminals with spaces between them, of which one is singled out. -/
theorem exists_intercalate (x : Leveled) (before after : List Leveled) :
    ∃ back, (∀ c ∈ back.head?, c = ' ') ∧
      [' '].intercalate ((terminals (before ++ x :: after)).map Terminal.chars) =
        text before ++ (x.terminal.chars ++ back) := by
  induction before with
  | nil =>
    obtain ⟨gap, -, hhead, hcons⟩ :=
      exists_intercalate_cons x.terminal.chars ((terminals after).map Terminal.chars)
    exact ⟨_, hhead, hcons⟩
  | cons y before ih =>
    obtain ⟨back, hback, htext⟩ := ih
    refine ⟨back, hback, ?_⟩
    rw [List.cons_append, terminals_cons, List.map_cons, intercalate_cons (by simp), htext]
    simp [text]

/-- The way over terminals with spaces between them ends at the first of them that opens a level
too many. -/
theorem walk_of_spaces (h : Terminal.AllApart (terminals (before ++ x :: after)))
    (hbefore : Clear before) (hx : x.tooDeep = true) (hgap : ∀ c ∈ gap, Lexical.isIgnorable c)
    (hrest : k.rest = gap ++
      [' '].intercalate ((terminals (before ++ x :: after)).map Terminal.chars)) :
    walk (before ++ x :: after) k = .error (Scanner.tooDeep (String.ofList x.terminal.chars)
      ⟨(k.consume (gap ++ text before)).position,
        (k.consume (gap ++ text before ++ x.terminal.chars)).position⟩) := by
  induction before generalizing k gap with
  | nil =>
    obtain ⟨back, hback, htext⟩ := exists_intercalate x [] after
    rw [htext] at hrest
    have hstands := h x.terminal (by simp) back hback
    have hskip := Cursor.skipTrivia_eq_consume hrest hgap hstands.startsLexeme
    obtain ⟨-, hbehind⟩ := hstands.laidAt hrest hgap
    rw [List.nil_append, walk_of_tooDeep hx, Cursor.spanOf, hskip, hbehind]
    simp [text]
  | cons y before ih =>
    rw [List.cons_append, terminals_cons] at h hrest
    rw [List.map_cons, intercalate_cons (by simp)] at hrest
    rw [Terminal.allApart_cons] at h
    rw [clear_cons] at hbefore
    obtain ⟨-, hbehind⟩ := (h.1 _ (by simp)).laidAt hrest hgap
    rw [← List.append_assoc] at hrest
    have hspace : ∀ c ∈ [' '], Lexical.isIgnorable c := by simp [Lexical.isIgnorable]
    rw [List.cons_append, walk_cons hbefore.1, hbehind,
      ih h.2 hbefore.2 hspace (Cursor.rest_consume_of_append hrest)]
    simp only [← Cursor.consume_append]
    simp [text]

end Leveled

/-! ## Counting brackets -/

theorem TypeRef.dimensions_le (t : TypeRef) : t.dimensions ≤ t.terminals.length := by
  rw [terminals, List.length_append, Terminal.length_openings]
  omega

theorem VariableDefinition.dimensions_le (v : VariableDefinition) :
    v.type.dimensions ≤ v.terminals.length := by
  have := v.type.dimensions_le
  simp only [terminals, List.length_cons, List.length_append]
  omega

theorem length_le_flatMap {α β : Type} {a : α} {as : List α} {f : α → List β} (h : a ∈ as) :
    (f a).length ≤ (as.flatMap f).length := by
  rw [List.flatMap_def]
  exact (List.sublist_flatten_of_mem (List.mem_map_of_mem h)).length_le

theorem Terminal.length_le_parenthesised (ts : List Terminal) :
    ts.length ≤ (parenthesised ts).length := by
  cases ts with
  | nil => exact Nat.le_refl 0
  | cons t ts =>
    simp only [parenthesised, List.isEmpty_cons, Bool.false_eq_true, ↓reduceIte, List.length_cons,
      List.length_append]
    omega

/-- The dimensions of a type are no more than the terminals of the definition around it. -/
theorem Definition.dimensions_le {x : Definition} {v : VariableDefinition}
    (h : .node (.variableDefinition v) ∈ x.node.parts) :
    v.type.dimensions ≤ x.terminals.length := by
  rcases x with ⟨_ | header, selections, span⟩ | f
  · simp [node, Node.parts, Operation.keyword, Operation.name, Operation.variableDefinitions,
      Operation.directives] at h
  · have hv : v ∈ header.variableDefinitions := by
      simpa [node, Node.parts, Operation.keyword, Operation.name, Operation.variableDefinitions,
        Operation.directives] using h
    have hle := v.dimensions_le
    have hflat := length_le_flatMap (f := VariableDefinition.terminals) hv
    have hparen := Terminal.length_le_parenthesised
      (header.variableDefinitions.flatMap VariableDefinition.terminals)
    simp only [terminals, List.length_cons, List.length_append]
    omega
  · simp [node, Node.parts] at h

/-- In a printed text that is not too long, the brackets of all types can be counted. -/
theorem Document.countable {d : Document} {k' : Cursor}
    (hsize : Text.byteLength d.print.toList < UInt32.size)
    (hlaid : LaidOut d.leveled (.ofText d.print) k') : ∀ x ∈ d.definitions, x.Countable := by
  intro x hx v hv
  obtain ⟨pieces, hlaid, hpieces⟩ := hlaid
  have hlength := hlaid.length_le
  have hend := (hlaid.reaches (Cursor.reaches_ofText d.print)).byteLength_rest
  have hterminals := congrArg List.length hpieces
  rw [List.length_map, terminals_leveled] at hterminals
  have hdefinition : x.terminals.length ≤ d.terminals.length := length_le_flatMap hx
  have hdimensions := Definition.dimensions_le hv
  omega

/-! ## Printed documents -/

theorem Document.laidOut_leveled {d : Document} (h : d.Shaped) :
    ∃ k', LaidOut d.leveled (.ofText d.print) k' ∧ k'.ahead = .eof := by
  have hrest : (Cursor.ofText d.print).rest =
      [] ++ [' '].intercalate (d.terminals.map Terminal.chars) := String.toList_ofList
  obtain ⟨pieces, k', hlaid, hpieces, hend⟩ :=
    Laid.exists_of_spaces (standsApart h) (fun c hc => by cases hc) hrest
  exact ⟨k', ⟨pieces, hlaid, by rw [hpieces, terminals_leveled]⟩, hend⟩

/-- Where a document nests too deep, one of its terminals is the first that opens a level too
many. -/
theorem Document.exists_tooDeep {d : Document} (h : ¬ d.Nests) : ∃ before x after,
    d.leveled = before ++ x :: after ∧ Clear before ∧ x.tooDeep = true := by
  cases hfind : d.leveled.find? tooDeep with
  | none =>
    refine absurd (nests_of_leveled fun x hx => ?_) h
    simpa using List.find?_eq_none.mp hfind x hx
  | some x =>
    obtain ⟨hx, before, after, hsplit, hbefore⟩ := List.find?_eq_some_iff_append.mp hfind
    exact ⟨before, x, after, hsplit, fun y hy => by simpa using hbefore y hy, hx⟩

/-- The error that a printed document is refused with, if it opens a level too many behind
`before`. -/
theorem Document.parse_print_of_tooDeep {d : Document} {before after : List Leveled} {x : Leveled}
    (h : d.Shaped) (hsize : Text.byteLength d.print.toList < UInt32.size)
    (hsplit : d.leveled = before ++ x :: after) (hbefore : Clear before) (hx : x.tooDeep = true) :
    Document.parse d.print = .error (Scanner.tooDeep (String.ofList x.terminal.chars)
      ⟨((Cursor.ofText d.print).consume (Leveled.text before)).position,
        ((Cursor.ofText d.print).consume (Leveled.text before ++ x.terminal.chars)).position⟩) := by
  obtain ⟨k', hlaid, hend⟩ := laidOut_leveled h
  refine parse_of_walk h (countable hsize hlaid) hlaid hend ?_
  have hterminals := terminals_leveled d
  rw [hsplit] at hterminals ⊢
  have hgap : ∀ c ∈ ([] : List Char), Lexical.isIgnorable c := fun c hc => nomatch hc
  refine walk_of_spaces ?_ hbefore hx hgap ?_
  · rw [hterminals]
    exact standsApart h
  · rw [hterminals]
    exact String.toList_ofList

namespace Document

/-- **The nesting guard is exact.** A document of the right shape is printed to a text of fewer than
`UInt32.size` bytes. This text is read back exactly where the document nests no deeper than it may.
Else it is refused at the first terminal that opens a level too many. -/
theorem nesting_exact {d : Document} (h : d.Shaped)
    (hsize : Text.byteLength d.print.toList < UInt32.size) :
    ((∃ d', Document.parse d.print = .ok d' ∧ d'.erased = d.erased) ↔ d.Nests) ∧
    (¬ d.Nests → ∃ before x after back e, d.leveled = before ++ x :: after ∧ Clear before ∧
      x.tooDeep = true ∧ d.print.toList = Leveled.text before ++ (x.terminal.chars ++ back) ∧
      Document.parse d.print = .error e ∧ e.cause = .invalidSyntax ∧
      e.message = "maximum nesting depth exceeded" ∧
      e.span = ⟨((Cursor.ofText d.print).consume (Leveled.text before)).position,
        ((Cursor.ofText d.print).consume
          (Leveled.text before ++ x.terminal.chars)).position⟩) := by
  refine ⟨⟨?_, fun hnests => ?_⟩, fun hnests => ?_⟩
  · rintro ⟨d', hparse, -⟩
    by_contra hnests
    obtain ⟨before, x, after, hsplit, hbefore, hx⟩ := exists_tooDeep hnests
    rw [parse_print_of_tooDeep h hsize hsplit hbefore hx] at hparse
    cases hparse
  · obtain ⟨d', hparse, herased, -⟩ := parse_print (wellFormed_iff.mpr ⟨h, hnests⟩)
    exact ⟨d', hparse, herased⟩
  · obtain ⟨before, x, after, hsplit, hbefore, hx⟩ := exists_tooDeep hnests
    obtain ⟨back, -, htext⟩ := Leveled.exists_intercalate x before after
    rw [← hsplit, terminals_leveled] at htext
    exact ⟨before, x, after, back, _, hsplit, hbefore, hx, String.toList_ofList.trans htext,
      parse_print_of_tooDeep h hsize hsplit hbefore hx, rfl, rfl, rfl⟩

/-- A variable whose type has too many dimensions. -/
def deepVariable : VariableDefinition :=
  let span : Span := ⟨.start, .start⟩
  ⟨.plain .name "x" span,
    ⟨.plain .name "Int" span, Nat.repeat (Wrapping.list false) 64 (.named false), span⟩,
    none, [], span⟩

/-- A query with that variable. -/
def deepOperation : Operation :=
  let span : Span := ⟨.start, .start⟩
  ⟨some ⟨.query, .plain .query "query" span, none, [deepVariable], []⟩,
    [.field none (.plain .name "a" span) [] [] [] span], span⟩

/-- A document of that query alone. -/
def deepSample : Document := ⟨[.operation deepOperation], ⟨.start, .start⟩⟩

theorem nesting_exact_deepSample : deepSample.Shaped ∧
    Text.byteLength deepSample.print.toList < UInt32.size ∧ ¬ deepSample.Nests ∧
    ∃ before x after e, deepSample.leveled = before ++ x :: after ∧ x.tooDeep = true ∧
      Document.parse deepSample.print = .error e ∧ e.cause = .invalidSyntax ∧
      e.message = "maximum nesting depth exceeded" := by
  have h : deepSample.Shaped := by
    simp [Shaped, deepSample, deepOperation, deepVariable, parts, Definition.node, Node.parts,
      Operation.keyword, Operation.name, Operation.variableDefinitions, Operation.directives,
      Node.selectionParts, Node.Shaped, Node.WellFormed, OperationHeader.WellFormed,
      Selection.WellFormed, Token.IsWhole, Token.IsPlainName, Token.plain]
    decide
  have hsize : Text.byteLength deepSample.print.toList < UInt32.size := by
    rw [print, String.toList_ofList]
    decide +kernel
  have hnests : ¬ deepSample.Nests := by
    intro hnests
    have hvariable : .node (.variableDefinition deepVariable) ∈
        (Node.operation deepOperation).parts := List.mem_cons_of_mem _ List.mem_cons_self
    have htype : .node (.typeRef deepVariable.type) ∈
        (Node.variableDefinition deepVariable).parts := List.mem_cons_of_mem _ List.mem_cons_self
    have hdimensions : deepVariable.type.dimensions ≤ 63 :=
      hnests _ List.mem_cons_self _ (.part hvariable (.part htype (.self _)))
    exact absurd hdimensions (by decide)
  obtain ⟨before, x, after, _, e, hsplit, -, hx, -, hparse, hcause, hmessage, -⟩ :=
    (nesting_exact h hsize).2 hnests
  exact ⟨h, hsize, hnests, before, x, after, e, hsplit, hx, hparse, hcause, hmessage⟩

end Document

end GraphQLSyntax
