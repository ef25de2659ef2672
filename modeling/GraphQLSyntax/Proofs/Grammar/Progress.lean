import GraphQLSyntax.Proofs.Grammar.Placed
import GraphQLSyntax.Proofs.Scan.Progress

/-!
# Reading makes progress

Every loop of the scanner and of the readers leads forward in the text and is left, and neither
selection sets nor lists are read deeper than they may nest.

* `Production.turn?`: one turn of the loop that repeats a production.
* `Production.Forward`: every such turn goes past what it reads.
* `Reader.SetsWithin`, `Reader.ListsWithin`: how many sets and lists are open at a time.
* `Document.parse_of_turns`: a document is read in no more turns than it has bytes.
* `Reader.progressIn`: all of this holds of every text.
-/

namespace GraphQLSyntax

variable {text : String}

/-! ## Readings in a text -/

/-- A reading stands at a lexeme of `text`, behind the cursor that all before it was read up to. -/
def Reading.In (text : String) (r : Reading) : Prop := ∃ k, k.Reaches text ∧ r = .ofCursor k

/-- Going on to the next lexeme leads to a reading in the text, whatever was read before. -/
theorem Reading.in_of_advance {r r' : Reading} {u : Unit} (h : r.scanner.cursor.Reaches text)
    (hr : Reader.advance r = .ok (u, r')) : r'.In text :=
  ⟨r.scanner.cursor, h, (Reader.advance_eq_ok.mp hr).2⟩

namespace Reading.In

variable {r : Reading}

theorem start_le (h : r.In text) :
    r.scanner.start.byteOffset ≤ Text.byteLength text.toList := by
  obtain ⟨k, hk, rfl⟩ := h
  exact hk.skipTrivia.offset_le

theorem consumedTo_le (h : r.In text) :
    r.consumedTo.byteOffset ≤ Text.byteLength text.toList := by
  obtain ⟨k, hk, rfl⟩ := h
  exact hk.offset_le

end Reading.In

/-! ## Loops of readers -/

namespace Production

variable {α : Type} {item : Production α} {more : Scanner → Except SyntaxError Bool}
  {r r' : Reading}

/-- Reads one more item, where `more` asks for it. -/
def turn? (item : Production α) (more : Scanner → Except SyntaxError Bool) (r : Reading) :
    Option Reading :=
  match more r.scanner, item.read r with
  | .ok true, .ok (_, r') => some r'
  | _, _ => none

theorem turn?_eq_some : item.turn? more r = some r' ↔
    more r.scanner = .ok true ∧ ∃ a, item.read r = .ok (a, r') := by
  unfold turn?
  split
  · rename_i a r₁ hmore hread
    simp [hmore, hread]
  · rename_i hnot
    refine iff_of_false (by rintro ⟨⟩) ?_
    rintro ⟨hmore, a, hread⟩
    exact hnot a r' hmore hread

/-- How a repetition stands where it is left: `more` asks for no further item, or refuses it, or the
item cannot be read. -/
inductive Left (item : Production α) (more : Scanner → Except SyntaxError Bool) (r : Reading) :
    Except SyntaxError Reading → Prop where
  | enough (h : more r.scanner = .ok false) : Left item more r (.ok r)
  | refused {e : SyntaxError} (h : more r.scanner = .error e) : Left item more r (.error e)
  | failed {e : SyntaxError} (h : more r.scanner = .ok true) (hread : item.read r = .error e) :
    Left item more r (.error e)

/-- A repetition makes one turn for each item that it reads, and is left behind them. -/
theorem turns_collect (item : Production α) (more : Scanner → Except SyntaxError Bool)
    (r : Reading) : ∃ r', Turns (item.turn? more) (item.collect more r).1.length r r' ∧
      item.turn? more r' = none ∧ item.Left more r' (item.collect more r).2 := by
  fun_induction collect item more r with
  | case1 r e hmore => exact ⟨r, .nil r, by simp [turn?, hmore], .refused hmore⟩
  | case2 r hmore => exact ⟨r, .nil r, by simp [turn?, hmore], .enough hmore⟩
  | case3 r hmore e hread => exact ⟨r, .nil r, by simp [turn?, hread], .failed hmore hread⟩
  | case4 r hmore a r₁ hread hlt items ending heq ih =>
    rw [heq] at ih
    obtain ⟨r', hs, hend, hleft⟩ := ih
    exact ⟨r', .cons (turn?_eq_some.mpr ⟨hmore, a, hread⟩) hs, hend, hleft⟩

/-- From a reading in a text, a production leads to another one: what was read ends further on, and
so does the lexeme behind it start. -/
def Forward (text : String) (item : Production α) : Prop := ∀ r a r', r.In text →
  item.read r = .ok (a, r') → r'.In text ∧
    r.scanner.start.byteOffset < r'.scanner.start.byteOffset ∧
    r.consumedTo.byteOffset < r'.consumedTo.byteOffset

/-- A production that reads a part goes past the part. -/
theorem forward_of_reads {f : α → Part} {P : α → Prop}
    (h : item.read.Reads fun a items _ => items = [.part (f a)] ∧ P a) :
    item.Forward text := by
  rintro _ a r' ⟨k, hk, rfl⟩ hread
  obtain ⟨k', _, pieces, rfl, hlaid, hspelled, rfl, -⟩ := h k a r' hread
  have hlt := hlaid.offset_lt hspelled.of_single.ne_nil
  exact ⟨⟨k', hlaid.reaches hk, rfl⟩, Nat.lt_of_lt_of_le hlt k'.byteOffset_le_skipTrivia,
    Nat.lt_of_le_of_lt k.byteOffset_le_skipTrivia hlt⟩

namespace Forward

/-- The lexeme that the next turn starts at moves strictly forward. -/
theorem progresses_start (h : item.Forward text) (more : Scanner → Except SyntaxError Bool) :
    Progresses (item.turn? more) (Reading.In text) (·.scanner.start.byteOffset)
      (Text.byteLength text.toList) := by
  refine ⟨fun r r' hr hturn => ?_, fun r hr => hr.start_le⟩
  obtain ⟨-, a, hread⟩ := turn?_eq_some.mp hturn
  obtain ⟨hr', hstart, -⟩ := h r a r' hr hread
  exact ⟨hr', hstart⟩

/-- The cursor behind what was read moves strictly forward. -/
theorem progresses_cursor (h : item.Forward text) (more : Scanner → Except SyntaxError Bool) :
    Progresses (item.turn? more) (Reading.In text) (·.consumedTo.byteOffset)
      (Text.byteLength text.toList) := by
  refine ⟨fun r r' hr hturn => ?_, fun r hr => hr.consumedTo_le⟩
  obtain ⟨-, a, hread⟩ := turn?_eq_some.mp hturn
  obtain ⟨hr', -, hcursor⟩ := h r a r' hr hread
  exact ⟨hr', hcursor⟩

end Forward

/-- The loop over a production: it makes one turn for each item, by a measure that leads strictly
forward and stays in the text. So there are no more items than bytes. -/
structure Loops (text : String) (measure : Reading → Nat) (item : Production α) : Prop where
  progresses : ∀ more, Progresses (item.turn? more) (Reading.In text) measure
    (Text.byteLength text.toList)
  left : ∀ more r, r.In text → ∃ n r', n + measure r ≤ Text.byteLength text.toList ∧
    Turns (item.turn? more) n r r' ∧ item.turn? more r' = none ∧
    (item.collect more r).1.length = n ∧ item.Left more r' (item.collect more r).2

theorem Loops.of_progresses {measure : Reading → Nat}
    (h : ∀ more, Progresses (item.turn? more) (Reading.In text) measure
      (Text.byteLength text.toList)) : item.Loops text measure := by
  refine ⟨h, fun more r hr => ?_⟩
  obtain ⟨r', hs, hend, hleft⟩ := item.turns_collect more r
  exact ⟨_, r', (h more).turns_le hs hr, hs, hend, rfl, hleft⟩

end Production

/-! ## Nesting -/

namespace Reader

/-- Of the sets that a reader reads, at most `n` are open at a time. Inside `n` sets that are open,
another is refused. -/
inductive SetsWithin : (n : Nat) → Reader (List Selection) → Prop where
  | refuses {p : Reader (List Selection)} (h : ∀ r, r.scanner.lexeme = .curlyOpen →
      p r = .error (Scanner.tooDeep (String.ofList r.scanner.text) r.scanner.span))
    (hfails : ∀ r, ∃ e, p r = .error e) : SetsWithin 0 p
  | braced {n : Nat} {nested : Reader (List Selection)} {item : Production Selection}
    (allowEmpty : Bool) (hitem : item.read = selection nested) (h : SetsWithin n nested) :
    SetsWithin (n + 1) (Reader.braced allowEmpty item)

/-- Of the lists that a reader of values reads, at most `n` are open at a time. Inside `n` lists
that are open, another is refused. -/
inductive ListsWithin : (n : Nat) → Reader Value → Prop where
  | refuses {list : Reader Value}
    (h : ∀ r, list r = .error (Scanner.tooDeep "[" r.scanner.span)) :
    ListsWithin 0 (valueWith list)
  | list {n : Nat} {item : Production Value} (h : ListsWithin n item.read) :
    ListsWithin (n + 1) (valueWith (Reader.list item))

theorem setsWithin_selectionSet (allowEmpty : Bool) (depth : Nat) :
    SetsWithin depth (Production.selectionSet allowEmpty depth).read := by
  induction depth generalizing allowEmpty with
  | zero =>
    refine .refuses (fun r hopen => ?_) fun r => ?_
    · show failTooDeep r = _
      rw [failTooDeep, lexeme_bind, if_pos hopen]
      rfl
    · show ∃ e, failTooDeep r = .error e
      rw [failTooDeep, lexeme_bind]
      split <;> exact ⟨_, rfl⟩
  | succ depth ih => exact .braced allowEmpty rfl (ih false)

theorem listsWithin_value (depth : Nat) : ListsWithin depth (Production.value depth).read := by
  induction depth with
  | zero => exact .refuses fun r => rfl
  | succ depth ih => exact .list ih

end Reader

/-! ## What is repeated -/

namespace Reader

theorem loops_definition (text : String) : Production.Loops text (·.scanner.start.byteOffset)
    ⟨definition, advances_definition⟩ :=
  .of_progresses (Production.forward_of_reads (f := fun d => .node d.node) fun _ =>
    reads_definition.readsFrom fun _ _ _ _ => ⟨rfl, trivial⟩).progresses_start

theorem loops_variableDefinition (text : String) :
    Production.Loops text (·.scanner.start.byteOffset)
      ⟨variableDefinition, advances_variableDefinition⟩ :=
  .of_progresses (Production.forward_of_reads (f := fun v => .node (.variableDefinition v))
    reads_variableDefinition).progresses_start

theorem loops_argument (text : String) : Production.Loops text (·.scanner.start.byteOffset)
    ⟨argument, advances_argument⟩ :=
  .of_progresses (Production.forward_of_reads (f := fun a => .node (.argument a))
    reads_argument).progresses_start

theorem loops_directive (text : String) : Production.Loops text (·.scanner.start.byteOffset)
    ⟨directive, advances_directive⟩ :=
  .of_progresses (Production.forward_of_reads (f := fun d => .node (.directive d))
    reads_directive).progresses_start

/-- The selections in a set are read with sets of any depth in them. -/
theorem loops_selection (text : String) {depth : Nat} {item : Production Selection}
    (hitem : item.read = selection (Production.selectionSet false depth).read) :
    item.Loops text (·.scanner.start.byteOffset) := by
  have hnested : ReadsSets (Production.selectionSet false depth).read depth := by
    refine (reads_selectionSet false depth).mono ?_
    rintro selections items k' ⟨hitems, hne, hdepth⟩
    exact ⟨hitems, hne rfl, hdepth⟩
  have hreads := reads_selection hnested
  rw [← hitem] at hreads
  exact .of_progresses (Production.forward_of_reads (f := fun s => .node (.selection s))
    hreads).progresses_start

/-- The items of a list are read one behind the other. -/
theorem loops_value (text : String) {depth : Nat} (hdepth : depth ≤ maxListDepth) :
    (Production.value depth).Loops text (·.consumedTo.byteOffset) :=
  .of_progresses (Production.forward_of_reads (f := fun v => .node (.value v))
    (reads_value_depth hdepth)).progresses_cursor

end Reader

/-! ## Whole texts -/

/-- Reads one more definition of a document. -/
def Document.turn? : Reading → Option Reading :=
  Production.turn? ⟨Reader.definition, Reader.advances_definition⟩ fun s =>
    .ok (s.lexeme ≠ .eof)

/-- A document is refused at its first lexeme, or read definition by definition: up to the end of
the input, or up to a definition that cannot be read. -/
theorem Document.parse_of_turns (text : String) :
    (∃ e, Reader.advance (.ofText text) = .error e ∧ Document.parse text = .error e) ∨
      ∃ r, Reader.advance (.ofText text) = .ok ((), r) ∧ LeftWith Document.turn? r fun n r' =>
        n ≤ Text.byteLength text.toList ∧
        ((r'.scanner.lexeme = .eof ∧
            ∃ d, Document.parse text = .ok d ∧ d.definitions.length = n) ∨
          ∃ e, Reader.definition r' = .error e ∧ Document.parse text = .error e) := by
  rw [Document.parse, Document.attempt]
  cases hadvance : Reader.advance (.ofText text) with
  | error e => exact .inl ⟨e, rfl, rfl⟩
  | ok q =>
    obtain ⟨u, r⟩ := q
    have hr := Reading.in_of_advance (Cursor.reaches_ofText text) hadvance
    refine .inr ⟨r, rfl, ?_⟩
    obtain ⟨n, r', hn, hs, hend, hlength, hleft⟩ :=
      (Reader.loops_definition text).left (fun s => .ok (s.lexeme ≠ .eof)) r hr
    refine ⟨n, r', hs, hend, by omega, ?_⟩
    dsimp only
    generalize Production.collect _ _ r = collected at hlength hleft
    obtain ⟨definitions, ending⟩ := collected
    cases hleft with
    | enough h =>
      rw [Except.ok.injEq, decide_eq_false_iff_not, not_not] at h
      exact .inl ⟨h, _, rfl, hlength⟩
    | refused h => cases h
    | failed h hread => exact .inr ⟨_, hread, rfl⟩

/-- Reading `text` goes forward. A reader goes on to a lexeme of the text, and every turn of a loop
leads from such a lexeme to a later one. At most 64 sets and at most 64 lists are open at a time. So
a document is read in no more turns than it has bytes. -/
structure Reader.ProgressIn (text : String) : Prop where
  entered : ∀ r u r', r.scanner.cursor.Reaches text → advance r = .ok (u, r') → r'.In text
  entered_type : ∀ r t r', r.In text → typeRef r = .ok (t, r') → r'.In text
  lists : ∀ depth ≤ maxListDepth, (Production.value depth).Loops text (·.consumedTo.byteOffset)
  definitions : Production.Loops text (·.scanner.start.byteOffset) ⟨definition, advances_definition⟩
  variableDefinitions : Production.Loops text (·.scanner.start.byteOffset)
    ⟨variableDefinition, advances_variableDefinition⟩
  arguments : Production.Loops text (·.scanner.start.byteOffset) ⟨argument, advances_argument⟩
  directives : Production.Loops text (·.scanner.start.byteOffset) ⟨directive, advances_directive⟩
  selections : ∀ depth (item : Production Selection),
    item.read = selection (Production.selectionSet false depth).read →
    item.Loops text (·.scanner.start.byteOffset)
  sets : SetsWithin 64 ownSelections
  valueLists : ListsWithin 64 value

theorem Reader.progressIn (text : String) : ProgressIn text where
  entered _ _ _ hr h := Reading.in_of_advance hr h
  entered_type := by
    rintro _ t r' ⟨k, hk, rfl⟩ h
    obtain ⟨k', _, pieces, rfl, hlaid, -, -⟩ := reads_typeRef k t r' h
    exact ⟨k', hlaid.reaches hk, rfl⟩
  lists _ hdepth := loops_value text hdepth
  definitions := loops_definition text
  variableDefinitions := loops_variableDefinition text
  arguments := loops_argument text
  directives := loops_directive text
  selections _ _ hitem := loops_selection text hitem
  sets := setsWithin_selectionSet true maxSelectionDepth
  valueLists := listsWithin_value maxListDepth

/-- **Every text is scanned and read by progress.** All loops go forward in the text and are left,
and what nests does so to a limited depth. So documents, types and values are all read to the end or
refused. -/
theorem Text.read_by_progress (text : String) :
    Scanner.ProgressIn text ∧ Reader.ProgressIn text ∧
    ((∃ e, Reader.advance (.ofText text) = .error e ∧ Document.parse text = .error e) ∨
      ∃ r, Reader.advance (.ofText text) = .ok ((), r) ∧ LeftWith Document.turn? r fun n r' =>
        n ≤ Text.byteLength text.toList ∧
        ((r'.scanner.lexeme = .eof ∧
            ∃ d, Document.parse text = .ok d ∧ d.definitions.length = n) ∨
          ∃ e, Reader.definition r' = .error e ∧ Document.parse text = .error e)) ∧
    ((∃ t, TypeRef.parse text = .ok t) ∨ ∃ e, TypeRef.parse text = .error e) ∧
    ((∃ v, Value.parse text = .ok v) ∨ ∃ e, Value.parse text = .error e) := by
  refine ⟨Scanner.progressIn text, Reader.progressIn text, Document.parse_of_turns text, ?_, ?_⟩
  · cases TypeRef.parse text with
    | error e => exact .inr ⟨e, rfl⟩
    | ok t => exact .inl ⟨t, rfl⟩
  · cases Value.parse text with
    | error e => exact .inr ⟨e, rfl⟩
    | ok v => exact .inl ⟨v, rfl⟩

end GraphQLSyntax
