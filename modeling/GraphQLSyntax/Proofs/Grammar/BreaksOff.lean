import GraphQLSyntax.Proofs.Grammar.Stops

/-!
# Readers that break off

Where a reader ends in an error, the reading of some items stops there, and these are how a part
begins that it would have given.

* `Reader.BreaksFrom`: a reader ends in an error only where the reading of some items does.
  `Reader.BreaksFrom.bind` carries this over a sequence.
* `Reader.Breaks.word`, `Reader.BreaksFrom.name`, `Reader.BreaksFrom.sigilName`: the readers of
  terminals.
-/

namespace GraphQLSyntax

namespace Reader

variable {α β : Type} {sets : Bool} {k : Cursor}

/-! ## Readers that break off -/

/-- From `k` on, a reader ends in an error only where the reading of some items does. `T` relates
these items to what it would have given. -/
def BreaksFrom (p : Reader α) (sets : Bool) (T : α → List Item → Prop) (k : Cursor) : Prop :=
  ∀ e, p (.ofCursor k) = .error e → ∃ a items, T a items ∧ Item.Stops e sets k items

/-- A reader ends in an error only where the reading of some items does. -/
def Breaks (p : Reader α) (sets : Bool) (T : α → List Item → Prop) : Prop :=
  ∀ k, p.BreaksFrom sets T k

variable {S : α → List Item → Cursor → Prop} {T : β → List Item → Prop}

namespace BreaksFrom

theorem mono {p : Reader β} {sets' : Bool} {T' : β → List Item → Prop}
    (h : p.BreaksFrom sets T k) (hsets : sets = true → sets' = true)
    (hT : ∀ b items, T b items → T' b items) : p.BreaksFrom sets' T' k := by
  intro e he
  obtain ⟨b, items, hb, hstops⟩ := h e he
  exact ⟨b, items, hT b items hb, hstops.mono hsets⟩

theorem pure {b : β} : (Pure.pure b : Reader β).BreaksFrom sets T k := by
  rintro e ⟨⟩

/-- Where the first of two readers breaks off, some items are still to come. Where the second does,
the first has read its own. -/
theorem bind {p : Reader α} {f : α → Reader β} {T' : α → List Item → Prop}
    (hp : p.BreaksFrom sets T' k) (hmore : ∀ a items, T' a items → ∃ b more, T b (items ++ more))
    (hreads : p.ReadsFrom S k)
    (hf : ∀ a items k', S a items k' →
      (f a).BreaksFrom sets (fun b more => T b (items ++ more)) k') :
    (p >>= f).BreaksFrom sets T k := by
  intro e he
  rcases bind_eq_error.mp he with he | ⟨a, r', hr, he⟩
  · obtain ⟨a, items, ha, hstops⟩ := hp e he
    obtain ⟨b, more, hb⟩ := hmore a items ha
    exact ⟨b, _, hb, hstops.append more⟩
  · obtain ⟨k', items, pieces, rfl, hlaid, hspelled, hS⟩ := hreads a r' hr
    obtain ⟨b, more, hb, hstops⟩ := hf a items k' hS e he
    exact ⟨b, _, hb, hstops.prepend hspelled hlaid⟩

/-- What is made of what a reader gives makes no difference to where it breaks off. -/
theorem map {p : Reader α} {f : α → β} {T' : α → List Item → Prop} (hp : p.BreaksFrom sets T' k)
    (hT : ∀ a items, T' a items → T (f a) items) :
    (p >>= fun a => Pure.pure (f a)).BreaksFrom sets T k := by
  intro e he
  rcases bind_eq_error.mp he with he | ⟨a, r', -, ⟨⟩⟩
  obtain ⟨a, items, ha, hstops⟩ := hp e he
  exact ⟨f a, items, hT a items ha, hstops⟩

theorem lexeme_bind {f : Lexeme → Reader β} (h : (f k.ahead).BreaksFrom sets T k) :
    (lexeme >>= f).BreaksFrom sets T k := h

theorem keyword_bind {f : Lexeme → Reader β} (h : (f k.keyword).BreaksFrom sets T k) :
    (keyword >>= f).BreaksFrom sets T k := h

/-- A reader that only fails reads nothing of what might have stood there. -/
theorem fail {error : Scanner → SyntaxError} (h : (error (.ofCursor k.skipTrivia)).Plain k)
    {b : β} {items : List Item} (hT : T b items) :
    (Reader.fail error : Reader β).BreaksFrom sets T k := by
  rintro _ ⟨⟩
  exact ⟨b, items, hT, .of_plain h items⟩

theorem failUnexpected (expected : List String) {b : β} {items : List Item} (hT : T b items) :
    (Reader.failUnexpected expected : Reader β).BreaksFrom sets T k :=
  fail (.unexpected expected) hT

/-- A reader of a node breaks off inside that node. -/
theorem spanned {part : Reader (Span → β)} (node : β → Node) (within : Bool)
    {U : (Span → β) → List Item → Prop} (h : part.BreaksFrom within U k)
    (hnode : ∀ build items span, U build items → (node (build span)).Form .reading items ∧
      (within = true → (node (build span)).isDefinition = false) ∧
      T (build span) [.part (.node (node (build span)))]) :
    (Reader.spanned part).BreaksFrom sets T k := by
  intro e he
  obtain ⟨build, items, hU, hstops⟩ := h e (spanned_eq_error.mp he)
  obtain ⟨hform, hwithin, hT⟩ := hnode build items ⟨.start, .start⟩ hU
  exact ⟨_, _, hT, .of_form hform (hstops.mono fun h => by rw [hwithin h]; rfl)⟩

end BreaksFrom

/-- A part that is read where there is a lexeme of the given kind. -/
theorem Breaks.whenAt {kind : Lexeme} {otherwise : β} {part : Reader β}
    (h : ∀ k, k.ahead = kind → part.BreaksFrom sets T k) :
    (Reader.whenAt kind otherwise part).Breaks sets T := by
  intro k
  unfold Reader.whenAt
  refine BreaksFrom.lexeme_bind ?_
  split
  · rename_i hkind
    exact h k hkind
  · exact .pure

/-! ## Terminals -/

/-- The next lexeme is refused where it cannot be scanned. -/
theorem advanceAfter_error {r : Reading} {stop : Position} {e : SyntaxError}
    (hk : r.scanner.cursor.skipTrivia = k.skipTrivia) (h : advanceAfter stop r = .error e) :
    e.Plain k := by
  unfold advanceAfter at h
  dsimp only at h
  rw [Scanner.advancePastComments_eq, hk] at h
  split at h
  · rename_i hunknown
    cases h
    exact .error nofun nofun fun _ heof => absurd (hunknown.symm.trans heof) (by decide)
  · cases h

theorem advance_error {r : Reading} {e : SyntaxError} (h : advance r = .error e) :
    e.Plain r.scanner.cursor := advanceAfter_error rfl h

theorem take_error {r : Reading} {e : SyntaxError} (h : take r = .error e) :
    e.Plain r.scanner.cursor := by
  unfold take at h
  rw [token_bind] at h
  rcases bind_eq_error.mp h with h | ⟨-, -, -, ⟨⟩⟩
  exact advance_error h

/-- Behind a lexeme, another one is refused. -/
theorem BreaksFrom.take {kind : Lexeme} (item : Token → Item) (h : k.ahead = kind)
    (hkind : kind.isControl = false) (hitem : ∀ text span,
      Item.Spelled .reading [item (.plain kind text span)] [⟨.lexeme kind text, span⟩]) :
    Reader.take.BreaksFrom sets (fun t items => items = [item t] ∧ t.lexeme = kind ∧
      t.type = none) k := by
  intro e he
  subst h
  obtain ⟨text, hlaid⟩ := k.laidAt_lexeme hkind
  have hplain := take_error he
  rw [hlaid.cursor_eq] at hplain
  exact ⟨_, _, ⟨rfl, rfl, rfl⟩, .behind (hitem text _) (.single hlaid) hplain⟩

theorem BreaksFrom.takeKeyword {kind : Lexeme} {word : String} (item : Token → Item)
    (h : k.keyword = kind) (hkind : kind.spelling? = some word) (hitem : ∀ span,
      Item.Spelled .reading [item (.plain .name word span)] [⟨.lexeme .name word, span⟩]) :
    Reader.take.BreaksFrom sets (fun t items => items = [item t] ∧ ∃ span, t = .plain .name word span)
      k := by
  intro e he
  have hname := Cursor.ahead_eq_name_of_keyword h (by rw [hkind]; rintro ⟨⟩)
  obtain ⟨text, hlaid⟩ := k.laidAt_lexeme (by rw [hname]; rfl)
  rw [hname] at hlaid
  have hclassify := hlaid.keyword_eq.symm.trans h
  obtain ⟨-, hspelling⟩ := KeywordTable.spelling?_of_classify hclassify
    (by rintro rfl; cases hkind)
  obtain rfl : text = word := Option.some.inj (hspelling.symm.trans hkind)
  have hplain := take_error he
  rw [hlaid.cursor_eq] at hplain
  exact ⟨_, _, ⟨rfl, _, rfl⟩, .behind (hitem _) (.single hlaid) hplain⟩

/-- A name that is still to come. -/
def someName : Token := .plain .name "" ⟨.start, .start⟩

theorem isPlainName_someName : someName.IsPlainName := ⟨rfl, rfl⟩

theorem BreaksFrom.name (what : String) : (Reader.name what).BreaksFrom sets (fun t items =>
    items = [t.item] ∧ t.IsPlainName) k := by
  unfold Reader.name Reader.expect
  refine BreaksFrom.lexeme_bind ?_
  split
  · rename_i h
    exact .take Token.item h rfl fun text span => spelled_token rfl
  · exact .failUnexpected _ ⟨rfl, isPlainName_someName⟩

/-- A punctuator is read as a token of its span. -/
theorem expect_word_eq_ok {kind : Lexeme} {c : Char} {expected : List String} {t : Token}
    {r' : Reading} (hkind : kind.punctuator? = some c)
    (h : expect kind expected (.ofCursor k) = .ok (t, r')) :
    (Terminal.lexeme kind (String.singleton c)).LaidAt k ∧
      t = .plain kind (String.singleton c) (k.spanOf (.lexeme kind (String.singleton c))) ∧
      r' = .ofCursor (k.behind (.lexeme kind (String.singleton c))) := by
  have hcontrol := Lexeme.isControl_of_isStructure (Lexeme.isStructure_of_punctuator hkind)
  obtain ⟨text, ⟨htext, -, rfl⟩, rfl⟩ := (expect_eq_ok hcontrol).mp h
  have hlaid := k.laidAt_word htext.ahead hkind
  have hscanner := htext.scanner_eq.symm.trans hlaid.scanner_eq
  rw [Scanner.mk.injEq] at hscanner
  obtain rfl : text = String.singleton c := String.toList_inj.mp hscanner.2.2.2
  exact ⟨hlaid, rfl, rfl⟩

/-- What is refused behind a punctuator. -/
theorem advance_word_error {kind : Lexeme} {c : Char} {e : SyntaxError} (h : k.ahead = kind)
    (hkind : kind.punctuator? = some c) (he : advance (.ofCursor k) = .error e) :
    (Terminal.lexeme kind (String.singleton c)).LaidAt k ∧
      e.Plain (k.behind (.lexeme kind (String.singleton c))) := by
  have hlaid := k.laidAt_word h hkind
  have hplain := advance_error he
  rw [hlaid.cursor_eq] at hplain
  exact ⟨hlaid, hplain⟩

theorem Breaks.word {kind : Lexeme} {c : Char} (hkind : kind.punctuator? = some c)
    (expected : List String) : (Reader.expect kind expected).Breaks sets fun _ items =>
      items = [.word kind (String.singleton c)] := by
  intro k
  unfold Reader.expect
  refine BreaksFrom.lexeme_bind ?_
  split
  · rename_i h
    intro e he
    have hlaid := k.laidAt_word h hkind
    have hplain := take_error he
    rw [hlaid.cursor_eq] at hplain
    exact ⟨someName, _, rfl, .behind (spelled_terminal _ _) (.single hlaid) hplain⟩
  · exact .failUnexpected _ (b := someName) rfl

/-- Where no name touches a sigil, what follows the sigil is refused. -/
theorem BreaksFrom.sigilName {kind : Lexeme} {c : Char} {expected : List String} {what : String}
    (item : Token → Item) (hc : Lexical.single? c = some kind)
    (hkind : kind = .dollar ∨ kind = .atSign) (hitem : ∀ name span,
      Item.Spelled .reading [item (.plain .name name span)] [⟨.sigilName c name, span⟩]) :
    (Reader.sigilName kind expected what).BreaksFrom sets (fun t items =>
      items = [item t] ∧ t.IsPlainName) k := by
  intro e he
  unfold Reader.sigilName at he
  split at he
  · rename_i hsigil
    obtain ⟨d, hd, hlaid⟩ := Cursor.laidAt_single hsigil (.inr hkind)
    obtain rfl : c = d := Lexical.single?_inj hc hd
    dsimp only at he
    split at he
    · rename_i hscanner
      have hname := Scanner.classify_of_sigilName hscanner
      rw [hlaid.cursor_eq] at hname
      obtain ⟨name, hname⟩ := Lexical.exists_eq_name hname
      have hplain := take_error he
      rw [Scanner.sigilName_eq ((congrArg (Lexical.classify ·.rest) hlaid.cursor_eq).trans hname),
        hlaid.cursor_eq, ← Cursor.behind_cons (t := .sigilName c name) rfl k kind] at hplain
      have hlaid' := (Cursor.laidAt_sigilName_iff hc hkind).mpr ⟨hlaid, hname⟩
      exact ⟨_, _, ⟨rfl, rfl, rfl⟩, .behind (hitem name _) (.single hlaid') hplain⟩
    · rename_i hscanner
      rw [Scanner.sigilName_eq_failHere hscanner] at he
      cases he
      exact ⟨someName, _, ⟨rfl, isPlainName_someName⟩,
        .of_plain (.nameless (Lexical.sigil_of_single? hc hkind) hlaid [what]) _⟩
  · cases he
    exact ⟨someName, _, ⟨rfl, isPlainName_someName⟩, .of_plain (.unexpected expected) _⟩

theorem Breaks.spreadDots :
    Reader.spreadDots.Breaks sets fun _ items => items = [.terminal .spread] := by
  intro k e he
  unfold Reader.spreadDots at he
  split at he
  · rename_i hperiod
    have hlaid := k.laidAt_word (c := '.') hperiod rfl
    split at he
    · rename_i s hs
      obtain ⟨rest, hrest, hdots, rfl⟩ := Scanner.spreadTail?_eq_some.mp hs
      have hplain := advance_error he
      dsimp only at hplain
      rw [hlaid.cursor_eq, ← Cursor.behind_cons (t := .spread) rfl k .period] at hplain
      rw [hlaid.cursor_eq] at hrest
      have hspread := Cursor.laidAt_spread_iff.mpr ⟨hlaid, rest, hrest, hdots⟩
      exact ⟨(), _, rfl, .behind (spelled_terminal _ _) (.single hspread) hplain⟩
    · cases he
      exact ⟨(), _, rfl, .of_plain (.unexpected _) _⟩
  · cases he
    exact ⟨(), _, rfl, .of_plain (.unexpected _) _⟩

end Reader

end GraphQLSyntax
