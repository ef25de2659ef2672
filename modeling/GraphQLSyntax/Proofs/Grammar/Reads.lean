import GraphQLSyntax.Proofs.Grammar.Step
import GraphQLSyntax.Proofs.Lexical.Keyword

/-!
# What readers read

* `Reader.Reads`: what a reader gives is related to the items that it reads.
* `Reader.ReadsFrom.bind`: readers in a row read items in a row.
* `Reader.ReadsNode.spanned`: a reader of a node gives it the span of its pieces.
* `Production.reads_inParentheses`, `Production.reads_whileAt`: repeated parts.
-/

namespace GraphQLSyntax

namespace Reader

variable {α β : Type} {k : Cursor} {S : α → List Item → Cursor → Prop}

/-- From `k` on, a reader reads the pieces of some items and stands behind them. `S` relates these
items and the cursor behind them to what it gives. -/
def ReadsFrom (p : Reader α) (S : α → List Item → Cursor → Prop) (k : Cursor) : Prop :=
  ∀ a r', p (.ofCursor k) = .ok (a, r') → ∃ k' items pieces, r' = .ofCursor k' ∧
    Laid k pieces k' ∧ Item.Spelled .reading items pieces ∧ S a items k'

/-- A reader reads items that `S` relates to what it gives. -/
def Reads (p : Reader α) (S : α → List Item → Cursor → Prop) : Prop := ∀ k, p.ReadsFrom S k

/-! ## Rules -/

theorem ReadsFrom.mono {p : Reader α} {T : α → List Item → Cursor → Prop} (h : p.ReadsFrom S k)
    (hS : ∀ a items k', S a items k' → T a items k') : p.ReadsFrom T k := by
  intro a r' hp
  obtain ⟨k', items, pieces, hr', hlaid, hspelled, ha⟩ := h a r' hp
  exact ⟨k', items, pieces, hr', hlaid, hspelled, hS a items k' ha⟩

theorem Reads.mono {p : Reader α} {T : α → List Item → Cursor → Prop} (h : p.Reads S)
    (hS : ∀ a items k', S a items k' → T a items k') : p.Reads T := fun k => (h k).mono hS

/-- Readers in a row read items in a row. -/
theorem ReadsFrom.bind {p : Reader α} {f : α → Reader β} {T : β → List Item → Cursor → Prop}
    (hp : p.ReadsFrom S k)
    (hf : ∀ a items k', S a items k' →
      (f a).ReadsFrom (fun b more k'' => T b (items ++ more) k'') k') :
    (p >>= f).ReadsFrom T k := by
  intro b r'' h
  obtain ⟨a, r', ha, hb⟩ := bind_eq_ok.mp h
  obtain ⟨k', items, pieces, rfl, hlaid, hspelled, hS⟩ := hp a r' ha
  obtain ⟨k'', more, pieces', rfl, hlaid', hspelled', hT⟩ := hf a items k' hS b r'' hb
  exact ⟨k'', items ++ more, pieces ++ pieces', rfl, hlaid.append hlaid',
    hspelled.append hspelled', hT⟩

theorem ReadsFrom.pure {a : α} (h : S a [] k) : (Pure.pure a : Reader α).ReadsFrom S k := by
  intro a' r' hp
  cases hp
  exact ⟨k, [], [], rfl, rfl, .nil, h⟩

theorem ReadsFrom.lexeme_bind {f : Lexeme → Reader α} (h : (f k.ahead).ReadsFrom S k) :
    (lexeme >>= f).ReadsFrom S k := h

theorem ReadsFrom.keyword_bind {f : Lexeme → Reader α} (h : (f k.keyword).ReadsFrom S k) :
    (keyword >>= f).ReadsFrom S k := h

/-- A reader that only fails reads nothing. -/
theorem ReadsFrom.fail (error : Scanner → SyntaxError) :
    (Reader.fail error : Reader α).ReadsFrom S k := by
  rintro a r' ⟨⟩

theorem ReadsFrom.failUnexpected (expected : List String) :
    (Reader.failUnexpected expected : Reader α).ReadsFrom S k := ReadsFrom.fail _

/-- A part that is read where there is a lexeme of the given kind. -/
theorem Reads.whenAt {kind : Lexeme} {otherwise : α} {part : Reader α}
    (h : ∀ k, k.ahead = kind → part.ReadsFrom S k)
    (hotherwise : ∀ k, k.ahead ≠ kind → S otherwise [] k) :
    (Reader.whenAt kind otherwise part).Reads S := by
  intro k
  unfold Reader.whenAt
  refine ReadsFrom.lexeme_bind ?_
  split
  · rename_i hkind
    exact h k hkind
  · rename_i hkind
    exact ReadsFrom.pure (hotherwise k hkind)

/-- Where nothing is read, the reading stays where it is. -/
theorem ReadsFrom.stays {p : Reader α} (h : p.ReadsFrom S k) :
    p.ReadsFrom (fun a items k' => S a items k' ∧ (items = [] → k' = k)) k := by
  intro a r' hp
  obtain ⟨k', items, pieces, hr', hlaid, hspelled, ha⟩ := h a r' hp
  refine ⟨k', items, pieces, hr', hlaid, hspelled, ha, ?_⟩
  rintro rfl
  cases hspelled
  exact hlaid

/-! ## Nodes -/

/-- From `k` on, a reader reads a node that is written with some items. `T` relates these items and
the cursor behind them to what it gives. -/
def ReadsNode (p : Reader α) (node : α → Node) (T : α → List Item → Cursor → Prop) (k : Cursor) :
    Prop :=
  ∀ a r', p (.ofCursor k) = .ok (a, r') → ∃ k' items pieces, r' = .ofCursor k' ∧
    Laid k pieces k' ∧ (node a).Spelled .reading items pieces ∧ T a items k'

section

variable {node : α → Node} {T : α → List Item → Cursor → Prop}

/-- A reader of a node gives it the span of its pieces. -/
theorem ReadsNode.spanned {part : Reader (Span → α)} {U : (Span → α) → List Item → Cursor → Prop}
    (h : part.ReadsFrom U k)
    (hnode : ∀ build items k' span, U build items k' → (node (build span)).WellFormed ∧
      Rule .reading (node (build span)) items ∧ (node (build span)).span? = some span ∧
      T (build span) items k') : (Reader.spanned part).ReadsNode node T k := by
  intro a r' hr
  unfold Reader.spanned at hr
  cases hpart : part (.ofCursor k) with
  | error e =>
    rw [hpart] at hr
    cases hr
  | ok q =>
    rw [hpart] at hr
    cases hr
    obtain ⟨build, r'⟩ := q
    obtain ⟨k', items, pieces, rfl, hlaid, hspelled, hU⟩ := h build r' hpart
    obtain ⟨hwf, hrule, hspan, hT⟩ := hnode build items k' ⟨k.skipTrivia.position, k'.position⟩ hU
    refine ⟨k', items, pieces, rfl, hlaid, ⟨hwf, hrule, hspelled, fun span hmem => ?_⟩, hT⟩
    obtain rfl : ⟨k.skipTrivia.position, k'.position⟩ = span :=
      Option.some.inj (hspan.symm.trans hmem)
    exact hlaid.covers (hrule.pieces_ne_nil hspelled)

/-- A node is read as one item. -/
theorem ReadsNode.readsFrom {p : Reader α} (h : p.ReadsNode node T k)
    (hS : ∀ a items k', T a items k' → S a [.part (.node (node a))] k') : p.ReadsFrom S k := by
  intro a r' hp
  obtain ⟨k', items, pieces, hr', hlaid, hspelled, hT⟩ := h a r' hp
  exact ⟨k', _, pieces, hr', hlaid, .single (Part.Spelled.node_iff.mpr ⟨items, hspelled⟩),
    hS a items k' hT⟩

theorem ReadsNode.map {β : Type} {p : Reader α} {f : α → β} {node' : β → Node}
    {U : β → List Item → Cursor → Prop} (h : p.ReadsNode node T k)
    (hnode : ∀ a, node' (f a) = node a) (hU : ∀ a items k', T a items k' → U (f a) items k') :
    (p >>= fun a => Pure.pure (f a)).ReadsNode node' U k := by
  intro b r' hb
  obtain ⟨a, r₁, ha, hpure⟩ := bind_eq_ok.mp hb
  cases hpure
  obtain ⟨k', items, pieces, hr', hlaid, hspelled, hT⟩ := h a r' ha
  exact ⟨k', items, pieces, hr', hlaid, hnode a ▸ hspelled, hU a items k' hT⟩

/-- A reader of a node reads that node as a whole. -/
theorem ReadsFrom.spanned {part : Reader (Span → α)} (node : α → Node)
    {T : (Span → α) → List Item → Cursor → Prop} (h : part.ReadsFrom T k)
    (hnode : ∀ build items k' span, T build items k' → (node (build span)).WellFormed ∧
      Rule .reading (node (build span)) items ∧ (node (build span)).span? = some span ∧
      S (build span) [.part (.node (node (build span)))] k') :
    (Reader.spanned part).ReadsFrom S k :=
  (ReadsNode.spanned (T := fun a _ k' => S a [.part (.node (node a))] k') h hnode).readsFrom
    fun _ _ _ hS => hS

end

/-! ## Terminals -/

/-- A lexeme is read as any item that it may be written as. -/
theorem ReadsFrom.take {kind : Lexeme} (item : Token → Item) (h : k.ahead = kind)
    (hkind : kind.isControl = false) (hitem : ∀ text span,
      Item.Spelled .reading [item (.plain kind text span)] [⟨.lexeme kind text, span⟩]) :
    Reader.take.ReadsFrom (fun t items _ => items = [item t] ∧ t.lexeme = kind ∧ t.type = none ∧
      (kind = .name → k.keyword = KeywordTable.execution.classify t.text)) k := by
  intro t r' ht
  obtain ⟨text, ⟨hlaid, -, rfl⟩, rfl⟩ := (take_ofCursor_eq_ok h hkind).mp ht
  refine ⟨_, _, _, rfl, .single hlaid, hitem text _, rfl, rfl, rfl, ?_⟩
  rintro rfl
  exact hlaid.keyword_eq

/-- A name that spells a keyword is read as any item that it may be written as. -/
theorem ReadsFrom.takeKeyword {kind : Lexeme} {word : String} (item : Token → Item)
    (h : k.keyword = kind) (hkind : kind.spelling? = some word) (hitem : ∀ span,
      Item.Spelled .reading [item (.plain .name word span)] [⟨.lexeme .name word, span⟩]) :
    Reader.take.ReadsFrom (fun t items _ => items = [item t] ∧ ∃ span, t = .plain .name word span)
      k := by
  intro t r' ht
  have hname := Cursor.ahead_eq_name_of_keyword h (by rw [hkind]; rintro ⟨⟩)
  obtain ⟨text, ⟨hlaid, -, rfl⟩, rfl⟩ := (take_ofCursor_eq_ok hname rfl).mp ht
  have hclassify := hlaid.keyword_eq.symm.trans h
  obtain ⟨-, hspelling⟩ := KeywordTable.spelling?_of_classify hclassify
    (by rintro rfl; cases hkind)
  obtain rfl : text = word := Option.some.inj (hspelling.symm.trans hkind)
  exact ⟨_, _, _, rfl, .single hlaid, hitem _, rfl, _, rfl⟩

theorem spelled_token {t : Token} {terminal : Terminal} (h : t.terminal = terminal) :
    Item.Spelled .reading [t.item] [⟨terminal, t.span⟩] := by
  subst h
  exact .single (.token t t.span (covers_single.mpr rfl))

theorem spelled_terminal (t : Terminal) (span : Span) :
    Item.Spelled .reading [.terminal t] [⟨t, span⟩] := .terminal t span .nil

/-- A name is read as a token. -/
theorem ReadsFrom.name (what : String) : (Reader.name what).ReadsFrom (fun t items _ =>
    items = [t.item] ∧ t.IsPlainName ∧
      k.keyword = KeywordTable.execution.classify t.text) k := by
  unfold Reader.name Reader.expect
  refine ReadsFrom.lexeme_bind ?_
  split
  · rename_i h
    refine (ReadsFrom.take Token.item h rfl fun text span => spelled_token rfl).mono ?_
    rintro t items k' ⟨hitems, hlexeme, htype, hkeyword⟩
    exact ⟨hitems, ⟨hlexeme, htype⟩, hkeyword rfl⟩
  · exact ReadsFrom.failUnexpected _

/-- A punctuator is read as a terminal. -/
theorem Reads.word {kind : Lexeme} {c : Char} (hkind : kind.punctuator? = some c)
    (expected : List String) : (Reader.expect kind expected).Reads fun _ items _ =>
      items = [.word kind (String.singleton c)] := by
  intro k t r' ht
  have hcontrol := Lexeme.isControl_of_isStructure (Lexeme.isStructure_of_punctuator hkind)
  obtain ⟨text, ⟨hlaid, -, rfl⟩, rfl⟩ := (expect_eq_ok hcontrol).mp ht
  have hword := k.laidAt_word hlaid.ahead hkind
  have htext := hlaid.scanner_eq.symm.trans hword.scanner_eq
  rw [Scanner.mk.injEq] at htext
  obtain rfl : text = String.singleton c := String.toList_inj.mp htext.2.2.2
  exact ⟨_, _, _, rfl, .single hlaid, spelled_terminal _ _, rfl⟩

theorem ReadsFrom.advance {kind : Lexeme} {c : Char} (h : k.ahead = kind)
    (hkind : kind.punctuator? = some c) : Reader.advance.ReadsFrom (fun _ items _ =>
      items = [.word kind (String.singleton c)]) k := by
  intro u r' hu
  obtain ⟨hlaid, -, rfl⟩ := (advance_ofCursor_eq_ok h hkind).mp hu
  exact ⟨_, _, _, rfl, .single hlaid, spelled_terminal _ _, rfl⟩

/-- A name behind its sigil is read as any item that it may be written as. -/
theorem Reads.sigilName {kind : Lexeme} {c : Char} {expected : List String} {what : String}
    (item : Token → Item) (hc : Lexical.single? c = some kind)
    (hkind : kind = .dollar ∨ kind = .atSign) (hitem : ∀ name span,
      Item.Spelled .reading [item (.plain .name name span)] [⟨.sigilName c name, span⟩]) :
    (Reader.sigilName kind expected what).Reads fun t items _ =>
      items = [item t] ∧ t.IsPlainName := by
  intro k t r' ht
  obtain ⟨name, ⟨hlaid, -, rfl⟩, rfl⟩ := (sigilName_eq_ok hc hkind).mp ht
  exact ⟨_, _, _, rfl, .single hlaid, hitem name _, rfl, rfl, rfl⟩

theorem spelled_sigilName {t : Token} (c : Char) :
    Item.Spelled .reading [.part (.sigilName c t)] [⟨.sigilName c t.text, t.span⟩] :=
  .single (.sigilName c t t.span (covers_single.mpr rfl))

theorem Reads.spreadDots :
    Reader.spreadDots.Reads fun _ items _ => items = [.terminal .spread] := by
  intro k u r' hu
  obtain ⟨hlaid, -, rfl⟩ := spreadDots_eq_ok.mp hu
  exact ⟨_, _, _, rfl, .single hlaid, spelled_terminal _ _, rfl⟩

end Reader

/-! ## Repeated parts -/

namespace Production

variable {α : Type} {item : Production α} {f : α → Item} {P : α → Prop}

/-- Repeating a part reads its items in a row, up to where there are no more. -/
theorem reads_repeatWhile {more : Scanner → Except SyntaxError Bool}
    (h : item.read.Reads fun a items _ => items = [f a] ∧ P a) :
    (item.repeatWhile more).Reads fun as items k' => items = as.map f ∧ (∀ a ∈ as, P a) ∧
      more (.ofCursor k'.skipTrivia) = .ok false := by
  intro k as r' has
  induction as generalizing k with
  | nil =>
    obtain ⟨-, hmore, rfl⟩ | ⟨_, _, _, ⟨⟩, -⟩ := repeatWhile_cases has
    exact ⟨k, [], [], rfl, rfl, .nil, rfl, by simp, hmore⟩
  | cons a as ih =>
    obtain ⟨⟨⟩, -⟩ | ⟨_, _, r₁, ⟨⟩, -, hread, hrest⟩ := repeatWhile_cases has
    obtain ⟨k₁, _, pieces, rfl, hlaid, hspelled, rfl, ha⟩ := h k a r₁ hread
    obtain ⟨k', _, pieces', hr', hlaid', hspelled', rfl, hall, hmore⟩ := ih k₁ hrest
    exact ⟨k', _, pieces ++ pieces', hr', hlaid.append hlaid', hspelled.append hspelled', rfl,
      List.forall_mem_cons.mpr ⟨ha, hall⟩, hmore⟩

theorem reads_untilClosing {close : Lexeme} {unclosed : Scanner → SyntaxError}
    (h : item.read.Reads fun a items _ => items = [f a] ∧ P a) :
    (item.untilClosing close unclosed).Reads fun as items k' => items = as.map f ∧
      (∀ a ∈ as, P a) ∧ k'.ahead = close := by
  refine (reads_repeatWhile h).mono ?_
  rintro as items k' ⟨hitems, hall, hmore⟩
  refine ⟨hitems, hall, ?_⟩
  rw [Cursor.ahead]
  split at hmore
  · assumption
  · split at hmore <;> cases hmore

theorem reads_whileAt {kind : Lexeme} (h : item.read.Reads fun a items _ => items = [f a] ∧ P a) :
    (item.whileAt kind).Reads fun as items k' => items = as.map f ∧ (∀ a ∈ as, P a) ∧
      k'.ahead ≠ kind := by
  refine (reads_repeatWhile h).mono ?_
  rintro as items k' ⟨hitems, hall, hmore⟩
  refine ⟨hitems, hall, ?_⟩
  rwa [Except.ok.injEq, decide_eq_false_iff_not] at hmore

theorem reads_parenthesised (h : item.read.Reads fun a items _ => items = [f a] ∧ P a) :
    item.parenthesised.Reads fun as items _ => items = Item.parenthesised (as.map f) ∧
      ∀ a ∈ as, P a := by
  intro k
  refine (Reader.Reads.word (c := '(') rfl _ k).bind ?_
  rintro opener _ k₁ rfl
  refine (reads_untilClosing h k₁).bind ?_
  rintro as _ k₂ ⟨rfl, hall, hclose⟩
  refine (Reader.ReadsFrom.advance hclose rfl).bind ?_
  rintro _ _ k₃ rfl
  exact Reader.ReadsFrom.pure ⟨rfl, hall⟩

/-- Parts between parentheses, which may be left out around nothing. -/
theorem reads_inParentheses (h : item.read.Reads fun a items _ => items = [f a] ∧ P a) :
    (Reader.whenAt .parenOpen [] item.parenthesised).Reads fun as written _ =>
      InParentheses (as.map f) written := by
  refine Reader.Reads.whenAt (fun k _ => ?_) fun _ _ => .absent
  refine (reads_parenthesised h k).mono ?_
  rintro as _ k' ⟨rfl, -⟩
  exact .present _

end Production

end GraphQLSyntax
