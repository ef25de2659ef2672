import GraphQLSyntax.Proofs.Grammar.Laid
import GraphQLSyntax.Proofs.Scan.Reached

/-!
# What a run goes past

A reader reads terminals, and skips what stands in front of each of them. So the terminals that it
has read tell what it has gone past, and which byte order marks it has skipped on the way. A text
that is read as a whole is made of the terminals of some items. Where a text is refused, the
terminals in front of the error are how some items begin.

* `Trail.through`: what is gone past with some terminals. `Laid.past`: a cursor behind them has
  gone past it, and each of them is read on the way (`Piece.ReadOn`).
* `Item.Begun`: how some items begin.
* `Cursor.LooksPast`: what is gone past from there to where an error comes up.
* `Item.ReadThrough`, `Item.ReadUpTo`: the trail of the run on a text that is accepted, and on one
  that is refused.
-/

namespace GraphQLSyntax

variable {text : String} {t u : Trail} {k k' : Cursor}

/-! ## Terminals -/

/-- What is gone past with some terminals in a row, up to the end of the last of them. -/
def Trail.through : (pieces : List Piece) → List Char → Trail
  | [], _ => []
  | p :: ps, cs =>
    let front := trivia false cs ++ p.chars.map .read
    front ++ through ps (cs.drop front.length)

/-- What a cursor leaves is what it has not gone past. -/
theorem Cursor.Past.rest_append (h : k.Past text t) (h' : k'.Past text (t ++ u)) :
    k'.rest = k.rest.drop u.length := by
  have hrest := h.text_eq.symm.trans h'.text_eq
  rw [Trail.text_append, List.append_assoc] at hrest
  rw [List.append_cancel_left hrest]
  exact (List.drop_left' (List.length_map _)).symm

/-- A piece is read on a trail. -/
structure Piece.ReadOn (t : Trail) (p : Piece) : Prop where
  stands : ∃ rest, p.terminal.Stands rest
  span_over : p.span.Over t p.chars

theorem Piece.ReadOn.append {p : Piece} (h : p.ReadOn t) (u : Trail) : p.ReadOn (t ++ u) :=
  ⟨h.stands, h.span_over.mono (List.prefix_append t u)⟩

/-- Behind some pieces, a cursor has gone past them all. Each of them is read on the way. -/
theorem Laid.past {pieces : List Piece} (h : Laid k pieces k') (hk : k.Past text t) :
    k'.Past text (t ++ Trail.through pieces k.rest) ∧
      ∀ p ∈ pieces, p.ReadOn (t ++ Trail.through pieces k.rest) := by
  induction pieces generalizing k t with
  | nil =>
    cases h
    rw [Trail.through, List.append_nil]
    exact ⟨hk, by simp⟩
  | cons p ps ih =>
    obtain ⟨hp, hspan, h⟩ := h
    have hstart := hk.skipTrivia
    have hstop : (k.behind p.terminal).Past text
        (t ++ (Trail.trivia false k.rest ++ p.chars.map Passed.read)) := by
      rw [← List.append_assoc]
      exact hstart.consume ⟨_, hp.rest_eq.symm⟩
    obtain ⟨hend, hall⟩ := ih h hstop
    have hrest : (k.behind p.terminal).rest = k.rest.drop _ := hk.rest_append hstop
    rw [hrest, List.append_assoc] at hend hall
    refine ⟨hend, List.forall_mem_cons.mpr
      ⟨⟨⟨_, hp.stands⟩, t ++ Trail.trivia false k.rest, ?_, ?_⟩, hall⟩⟩
    · rw [List.append_assoc]
      exact (List.prefix_append_right_inj t).mpr (List.prefix_append _ _)
    · rw [hspan, List.append_assoc]
      exact congrArg₂ Span.mk hstart.position_eq hstop.position_eq

/-! ## How items begin -/

/-- The tokens of a node are of the kinds that it is written with: names, except for the token of a
literal. -/
def Node.Worded : Node → Prop
  | .value (.scalar token) => token.IsLiteral
  | n => ∀ t, .token t ∈ n.parts → t.terminal = .lexeme .name t.text

section

variable (σ : Convention)

/-- The items that a node is written with, if its tokens are of the right kinds. -/
structure Node.Form (n : Node) (items : List Item) : Prop where
  worded : n.Worded
  rule : Rule σ n items

/-- Some items begin with `pieces`. Whole items are written first. Nothing else may be, or some of
the items that the next one is made of, which is a node. -/
inductive Item.Begun : (items : List Item) → (pieces : List Piece) → Prop where
  | front {front behind : List Item} {pieces : List Piece} (h : Item.Spelled σ front pieces) :
    Begun (front ++ behind) pieces
  | inside {front behind items : List Item} {before within : List Piece} {n : Node}
    (hfront : Item.Spelled σ front before) (hform : n.Form σ items) (h : Begun items within) :
    Begun (front ++ .part (.node n) :: behind) (before ++ within)

end

namespace Item.Begun

variable {σ : Convention} {items front : List Item} {pieces before : List Piece}

/-- Nothing is written yet. -/
theorem nothing (σ : Convention) (items : List Item) : Begun σ items [] := by
  have hfront : Begun σ ([] ++ items) [] := .front .nil
  exact hfront

/-- What is to come does not matter. -/
theorem append (h : Begun σ items pieces) (more : List Item) : Begun σ (items ++ more) pieces := by
  cases h with
  | front h =>
    rw [List.append_assoc]
    exact .front h
  | inside hfront hform h =>
    rw [List.append_assoc]
    exact .inside hfront hform h

/-- What stands before is read. -/
theorem prepend (h : Begun σ items pieces) (hfront : Item.Spelled σ front before) :
    Begun σ (front ++ items) (before ++ pieces) := by
  cases h with
  | front h =>
    rw [← List.append_assoc]
    exact .front (hfront.append h)
  | inside hfront' hform h =>
    rw [← List.append_assoc, ← List.append_assoc]
    exact .inside (hfront.append hfront') hform h

/-- A node begins with the items of its rule. -/
theorem of_form {n : Node} (hform : n.Form σ items) (h : Begun σ items pieces) :
    Begun σ [.part (.node n)] pieces := by
  have hnode : Begun σ ([] ++ [.part (.node n)]) ([] ++ pieces) := .inside .nil hform h
  exact hnode

end Item.Begun

/-! ## Where errors come up -/

/-- What is gone past from `k` on where what follows is refused: all up to the next lexeme, and a
sigil that stands there where a name should touch it. Behind the name of a type, that is white space
alone. -/
inductive Cursor.LooksPast (k : Cursor) : Trail → Prop where
  | lexeme : LooksPast k (.trivia false k.rest)
  | sigil {c : Char} {rest : List Char} (hc : c = '$' ∨ c = '@')
    (hrest : k.skipTrivia.rest = c :: rest) : LooksPast k (Trail.trivia false k.rest ++ [.read c])
  | ignorable : LooksPast k ((k.rest.takeWhile Lexical.isIgnorable).map .read)

theorem Cursor.LooksPast.past (h : k.LooksPast u) (hk : k.Past text t) :
    (k.passAll u).Past text (t ++ u) := by
  cases h with
  | lexeme =>
    rw [k.passAll_trivia]
    exact hk.skipTrivia
  | sigil hc hrest =>
    have hsigil := hk.skipTrivia.passAll (u := [.read _]) ⟨_, hrest.symm⟩
    rwa [← k.passAll_trivia, ← passAll_append, List.append_assoc] at hsigil
  | ignorable =>
    rw [Cursor.passAll_read]
    exact hk.consume (List.takeWhile_prefix _)

/-- An error comes up where `k` is left. What it calls unreadable is not the end of the text, as the
next lexeme. -/
structure SyntaxError.ComesUp (e : SyntaxError) (k : Cursor) : Prop where
  start_at : ∃ u, k.LooksPast u ∧ e.span.start = (k.passAll u).position
  ahead_ne : e.cause = .unreadable → k.ahead ≠ .eof

/-! ## Runs -/

/-- A run that reads a text as `items` goes past `t`, which is all of the text. -/
def Item.ReadThrough (text : String) (items : List Item) (t : Trail) : Prop :=
  ∃ pieces k, Item.Spelled .reading items pieces ∧ Laid (.ofText text) pieces k ∧
    k.skipTrivia.rest = [] ∧ t = .through pieces text.toList ++ .trivia false k.rest

/-- A run that reads a text as `items` goes past `t` until it stops. What it has read by then is how
the items begin. -/
def Item.ReadUpTo (text : String) (items : List Item) (t : Trail) : Prop :=
  ∃ pieces k u, Item.Begun .reading items pieces ∧ Laid (.ofText text) pieces k ∧
    k.LooksPast u ∧ t = .through pieces text.toList ++ u

/-- Where nothing is left behind the pieces of some items, a run has read all of these. -/
theorem Item.Spelled.readThrough {items : List Item} {pieces : List Piece}
    (h : Item.Spelled .reading items pieces) (hlaid : Laid (.ofText text) pieces k)
    (hend : k.skipTrivia.rest = []) : ∃ t, Item.ReadThrough text items t ∧
      t.text = text.toList ∧ k.skipTrivia.position = t.position ∧
      ∀ p ∈ pieces, p.ReadOn t := by
  obtain ⟨hk, hall⟩ := hlaid.past (.start text)
  have hpast := hk.skipTrivia
  refine ⟨_, ⟨pieces, k, h, hlaid, hend, rfl⟩, ?_, hpast.position_eq,
    fun p hp => (hall p hp).append _⟩
  have htext := hpast.text_eq
  rw [hend, List.append_nil] at htext
  exact htext.symm

end GraphQLSyntax
