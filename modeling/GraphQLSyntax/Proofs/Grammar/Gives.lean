import GraphQLSyntax.Proofs.Grammar.LaidOut
import GraphQLSyntax.Proofs.Grammar.Step

/-!
# What readers give

Where a part stands in a text, its reader reads it, if what follows lets it end there.

* `Reader.Gives`: a reader succeeds between two cursors, and what it gives has a property.
* `Reader.Gives.bind`, `Reader.Gives.spanned`: readers in a row, and readers of nodes.
* `Reader.Takes`: a reader gets from one cursor to the other, and only what follows may stop it.
* `Reader.gives_name`, `Reader.gives_sigilName`: tokens.
* `Production.gives_repeatWhile`: repeated parts.
-/

namespace GraphQLSyntax

variable {σ : Convention} {g : Position → Position} {k k' k'' : Cursor}

/-- A plain name is its text at its place. -/
theorem Token.IsPlainName.map_eq {t : Token} {span : Span} (h : t.IsPlainName)
    (hspan : span.map g = t.span) : (Token.plain .name t.text span).map g = t := by
  obtain ⟨lexeme, text, _, type⟩ := t
  obtain ⟨rfl, rfl⟩ := h
  obtain rfl := hspan
  rfl

theorem Token.IsPlainName.eq_plain {t : Token} (h : t.IsPlainName) :
    t = .plain .name t.text t.span := by
  obtain ⟨lexeme, text, span, type⟩ := t
  obtain ⟨rfl, rfl⟩ := h
  rfl

namespace Reader

variable {α β : Type} {P : α → Prop}

/-- A reader reads what stands between two cursors, and what it gives has a property. -/
def Gives (p : Reader α) (k k' : Cursor) (P : α → Prop) : Prop :=
  ∃ a, p (.ofCursor k) = .ok (a, .ofCursor k') ∧ P a

namespace Gives

theorem mono {p : Reader α} {Q : α → Prop} (h : p.Gives k k' P) (hP : ∀ a, P a → Q a) :
    p.Gives k k' Q := by
  obtain ⟨a, ha, hPa⟩ := h
  exact ⟨a, ha, hP a hPa⟩

theorem bind {p : Reader α} {f : α → Reader β} {Q : β → Prop} (hp : p.Gives k k' P)
    (hf : ∀ a, P a → (f a).Gives k' k'' Q) : (p >>= f).Gives k k'' Q := by
  obtain ⟨a, ha, hPa⟩ := hp
  obtain ⟨b, hb, hQ⟩ := hf a hPa
  exact ⟨b, bind_eq_ok.mpr ⟨a, _, ha, hb⟩, hQ⟩

theorem pure {a : α} (h : P a) : (Pure.pure a : Reader α).Gives k k P := ⟨a, rfl, h⟩

theorem lexeme_bind {f : Lexeme → Reader α} (h : (f k.ahead).Gives k k' P) :
    (lexeme >>= f).Gives k k' P := h

theorem keyword_bind {f : Lexeme → Reader α} (h : (f k.keyword).Gives k k' P) :
    (keyword >>= f).Gives k k' P := h

theorem whenAt {kind : Lexeme} {otherwise : α} {part : Reader α} (h : k.ahead = kind)
    (hpart : part.Gives k k' P) : (Reader.whenAt kind otherwise part).Gives k k' P := by
  refine lexeme_bind ?_
  rwa [if_pos h]

theorem whenAt_absent {kind : Lexeme} {otherwise : α} {part : Reader α} (h : k.ahead ≠ kind)
    (ha : P otherwise) : (Reader.whenAt kind otherwise part).Gives k k P := by
  refine lexeme_bind ?_
  rw [if_neg h]
  exact pure ha

/-- A reader of a node gives it the span from the next lexeme to where the reading ends. -/
theorem spanned {part : Reader (Span → α)}
    (h : part.Gives k k' fun build => P (build ⟨k.skipTrivia.position, k'.position⟩)) :
    (Reader.spanned part).Gives k k' P := by
  obtain ⟨build, hbuild, hP⟩ := h
  refine ⟨_, ?_, hP⟩
  unfold Reader.spanned
  rw [hbuild]
  rfl

end Gives

/-! ## What follows -/

/-- Goes to the next lexeme behind `k`, and reads from there on. -/
def after (p : Reader α) (k : Cursor) : Except SyntaxError (α × Reading) :=
  if k.ahead = .unknown then .error ((Scanner.ofCursor k.skipTrivia).error .unreadable)
  else p (.ofCursor k)

theorem after_of_known {p : Reader α} (h : k.ahead ≠ .unknown) : p.after k = p (.ofCursor k) :=
  if_neg h

theorem advance_eq_after (r : Reading) :
    advance r = (Pure.pure () : Reader Unit).after r.scanner.cursor := by
  unfold advance advanceAfter after
  rw [Scanner.advancePastComments_eq]
  rfl

theorem advance_bind_eq_after (p : Unit → Reader α) (r : Reading) :
    (advance >>= p) r = (p ()).after r.scanner.cursor := by
  rw [bind_apply, advance_eq_after]
  unfold after
  split <;> rfl

/-- A reader reads what stands between two cursors, and then goes to the next lexeme. What it gives
has a property. -/
def Takes (p : Reader α) (k k' : Cursor) (P : α → Prop) : Prop :=
  ∃ a, p (.ofCursor k) = (Pure.pure a : Reader α).after k' ∧ P a

theorem Gives.takes {p : Reader α} (h : p.Gives k k' P) (hnext : k'.ahead ≠ .unknown) :
    p.Takes k k' P := by
  obtain ⟨a, ha, hP⟩ := h
  exact ⟨a, by rw [ha, after_of_known hnext]; rfl, hP⟩

theorem after_map {p : Reader α} {f : α → β} (k : Cursor) :
    (p >>= fun a => Pure.pure (f a)).after k = (p.after k).map fun q => (f q.1, q.2) := by
  unfold after
  split
  · rfl
  · rw [bind_apply]
    cases p (.ofCursor k) <;> rfl

/-- Where one reader gives what the next one starts with, the next one decides what comes of
both. -/
theorem Gives.bind_takes {p : Reader α} {f : α → Reader β} {Q : β → Prop} (hp : p.Gives k k' P)
    (hf : ∀ a, P a → (f a).Takes k' k'' Q) : (p >>= f).Takes k k'' Q := by
  obtain ⟨a, ha, hPa⟩ := hp
  obtain ⟨b, hb, hQ⟩ := hf a hPa
  refine ⟨b, ?_, hQ⟩
  rw [bind_apply, ha]
  exact hb

namespace Takes

theorem gives {p : Reader α} (h : p.Takes k k' P) (hnext : k'.ahead ≠ .unknown) :
    p.Gives k k' P := by
  obtain ⟨a, ha, hP⟩ := h
  exact ⟨a, ha.trans (after_of_known hnext), hP⟩

/-- What is read next is read behind the cursor that a reader gets to. -/
theorem bind_eq {p : Reader α} (h : p.Takes k k' P) :
    ∃ a, P a ∧ ∀ {β : Type} (f : α → Reader β), (p >>= f) (.ofCursor k) = (f a).after k' := by
  obtain ⟨a, ha, hP⟩ := h
  refine ⟨a, hP, fun f => ?_⟩
  rw [bind_apply, ha]
  unfold after
  split <;> rfl

theorem map {p : Reader α} {f : α → β} {Q : β → Prop} (h : p.Takes k k' P)
    (hf : ∀ a, P a → Q (f a)) : (p >>= fun a => Pure.pure (f a)).Takes k k' Q := by
  obtain ⟨a, hP, ha⟩ := h.bind_eq
  exact ⟨f a, ha _, hf a hP⟩

theorem keyword_bind {f : Lexeme → Reader α} (h : (f k.keyword).Takes k k' P) :
    (keyword >>= f).Takes k k' P := h

theorem whenAt {kind : Lexeme} {otherwise : α} {part : Reader α} (h : k.ahead = kind)
    (hpart : part.Takes k k' P) : (Reader.whenAt kind otherwise part).Takes k k' P := by
  obtain ⟨a, ha, hP⟩ := hpart
  refine ⟨a, ?_, hP⟩
  unfold Reader.whenAt
  rw [lexeme_bind, if_pos (show (Reading.ofCursor k).scanner.lexeme = kind from h), ha]

/-- A reader of a node gives it the span from the next lexeme to where the reading ends. -/
theorem spanned {part : Reader (Span → α)}
    (h : part.Takes k k' fun build => P (build ⟨k.skipTrivia.position, k'.position⟩)) :
    (Reader.spanned part).Takes k k' P := by
  obtain ⟨build, hbuild, hP⟩ := h
  refine ⟨_, ?_, hP⟩
  unfold Reader.spanned
  rw [hbuild]
  unfold after
  split <;> rfl

end Takes

/-! ## Terminals -/

variable {kind : Lexeme} {text : String} {t : Token}

theorem gives_take (h : (Terminal.lexeme kind text).LaidAt k)
    (hnext : (k.behind (.lexeme kind text)).ahead ≠ .unknown) :
    take.Gives k (k.behind (.lexeme kind text))
      (· = .plain kind text (k.spanOf (.lexeme kind text))) :=
  ⟨_, (take_ofCursor_eq_ok h.ahead h.stands.2.1).mpr ⟨text, ⟨h, hnext, rfl⟩, rfl⟩, rfl⟩

theorem gives_expect {expected : List String} (h : (Terminal.lexeme kind text).LaidAt k)
    (hnext : (k.behind (.lexeme kind text)).ahead ≠ .unknown) :
    (expect kind expected).Gives k (k.behind (.lexeme kind text))
      (· = .plain kind text (k.spanOf (.lexeme kind text))) :=
  ⟨_, (expect_eq_ok h.stands.2.1).mpr ⟨text, ⟨h, hnext, rfl⟩, rfl⟩, rfl⟩

theorem takes_advance (h : (Terminal.lexeme kind text).LaidAt k) :
    advance.Takes k (k.behind (.lexeme kind text)) fun _ => True :=
  ⟨(), by rw [advance_eq_after, h.cursor_eq], trivial⟩

theorem gives_spreadDots (h : Terminal.spread.LaidAt k)
    (hnext : (k.behind .spread).ahead ≠ .unknown) :
    spreadDots.Gives k (k.behind .spread) fun _ => True :=
  ⟨(), spreadDots_eq_ok.mpr ⟨h, hnext, rfl⟩, trivial⟩

/-- A plain name is read where it stands. -/
theorem gives_name {what : String} (h : (Part.token t).LaidOut σ g k k') (ht : t.IsPlainName)
    (hnext : k'.ahead ≠ .unknown) : (name what).Gives k k' fun t' => t'.map g = t := by
  obtain ⟨hlaid, rfl, hspan⟩ := h.token
  rw [ht.terminal_eq] at hlaid hspan hnext ⊢
  refine (gives_expect hlaid hnext).mono ?_
  rintro _ rfl
  exact ht.map_eq hspan

/-- A name behind a sigil is read where both stand. -/
theorem gives_sigilName {c : Char} {expected : List String} {what : String}
    (hc : Lexical.single? c = some kind) (hkind : kind = .dollar ∨ kind = .atSign)
    (h : (Part.sigilName c t).LaidOut σ g k k') (hnext : k'.ahead ≠ .unknown) :
    (sigilName kind expected what).Gives k k' fun t' =>
      t'.map g = .plain .name t.text t.span := by
  obtain ⟨hlaid, rfl, hspan⟩ := h.sigilName
  refine ⟨_, (sigilName_eq_ok hc hkind).mpr ⟨t.text, ⟨hlaid, hnext, rfl⟩, rfl⟩, ?_⟩
  rw [← hspan]
  rfl

end Reader

/-! ## Repeated parts -/

namespace Production

variable {α : Type} {item : Production α} {f : α → Item} {m : α → α} {as : List α}
  {S : List Lexeme}

/-- Parts that stand in a row are read one after the other, up to where there are no more. What
follows each of them is another, or what follows them all. -/
theorem gives_repeatWhile {more : Scanner → Except SyntaxError Bool}
    (h : Item.LaidOut σ g (as.map f) k k')
    (hstarts : ∀ a ∈ as, ∀ l ∈ (f a).firsts, l ∈ S)
    (hmore : ∀ k : Cursor, k.ahead ∈ S → more (.ofCursor k.skipTrivia) = .ok true)
    (hend : more (.ofCursor k'.skipTrivia) = .ok false)
    (hread : ∀ a ∈ as, ∀ k₁ k₂, Item.LaidOut σ g [f a] k₁ k₂ →
      k₂.ahead ∈ k'.ahead :: S → item.read.Gives k₁ k₂ fun a' => m a' = a) :
    (item.repeatWhile more).Gives k k' fun as' => as'.map m = as := by
  induction as generalizing k with
  | nil =>
    obtain rfl := h.nil
    exact ⟨[], repeatWhile_of_end hend, rfl⟩
  | cons a as ih =>
    rw [List.map_cons, ← List.singleton_append] at h
    obtain ⟨k₁, hfirst, hrest⟩ := h.append
    have hnext : k₁.ahead ∈ k'.ahead :: S := by
      refine hrest.ahead (P := (· ∈ k'.ahead :: S)) ?_ (by simp)
      simp only [List.mem_map, forall_exists_index, and_imp]
      rintro _ b hb rfl l hl
      exact List.mem_cons_of_mem _ (hstarts b (by simp [hb]) l hl)
    obtain ⟨a', ha', rfl⟩ := hread a (by simp) k k₁ hfirst hnext
    obtain ⟨as', has', rfl⟩ := ih hrest (fun b hb => hstarts b (by simp [hb]))
      fun b hb => hread b (by simp [hb])
    have hmore' := hmore k (hstarts _ (by simp) _ hfirst.ahead_mem)
    refine ⟨a' :: as', ?_, rfl⟩
    rw [repeatWhile_of_more hmore']
    exact Reader.bind_eq_ok.mpr ⟨a', _, ha', Reader.bind_eq_ok.mpr ⟨as', _, has', rfl⟩⟩

theorem gives_untilClosing {close : Lexeme} {unclosed : Scanner → SyntaxError}
    (h : Item.LaidOut σ g (as.map f) k k') (hclose : k'.ahead = close)
    (hstarts : ∀ a ∈ as, ∀ l ∈ (f a).firsts, l ∈ S) (hnot : close ∉ S ∧ .eof ∉ S)
    (hread : ∀ a ∈ as, ∀ k₁ k₂, Item.LaidOut σ g [f a] k₁ k₂ → k₂.ahead ∈ close :: S →
      item.read.Gives k₁ k₂ fun a' => m a' = a) :
    (item.untilClosing close unclosed).Gives k k' fun as' => as'.map m = as := by
  subst hclose
  refine gives_repeatWhile h hstarts (fun k₁ hk₁ => ?_) (if_pos rfl) hread
  have hne : k₁.ahead ≠ k'.ahead ∧ k₁.ahead ≠ .eof := by
    refine ⟨?_, ?_⟩ <;> intro heq <;> rw [heq] at hk₁
    · exact hnot.1 hk₁
    · exact hnot.2 hk₁
  exact (if_neg hne.1).trans (if_neg hne.2)

theorem gives_whileAt {kind : Lexeme} (h : Item.LaidOut σ g (as.map f) k k')
    (hnext : k'.ahead ≠ kind) (hstarts : ∀ a ∈ as, ∀ l ∈ (f a).firsts, l = kind)
    (hread : ∀ a ∈ as, ∀ k₁ k₂, Item.LaidOut σ g [f a] k₁ k₂ → k₂.ahead ∈ [k'.ahead, kind] →
      item.read.Gives k₁ k₂ fun a' => m a' = a) :
    (item.whileAt kind).Gives k k' fun as' => as'.map m = as := by
  refine gives_repeatWhile h (S := [kind]) ?_ ?_ ?_ hread
  · simpa using hstarts
  · intro k₁ hk₁
    exact congrArg Except.ok (decide_eq_true (List.mem_singleton.mp hk₁))
  · exact congrArg Except.ok (decide_eq_false hnext)

/-- Parts between parentheses. -/
theorem gives_parenthesised (h : Item.LaidOut σ g (Item.parenthesised (as.map f)) k k')
    (hnext : k'.ahead ≠ .unknown) (hstarts : ∀ a ∈ as, ∀ l ∈ (f a).firsts, l ∈ S)
    (hnot : ∀ l ∈ [.parenClose, .eof, .unknown], l ∉ S)
    (hread : ∀ a ∈ as, ∀ k₁ k₂, Item.LaidOut σ g [f a] k₁ k₂ →
      k₂.ahead ∈ .parenClose :: S → item.read.Gives k₁ k₂ fun a' => m a' = a) :
    item.parenthesised.Gives k k' fun as' => as'.map m = as := by
  obtain ⟨hopen, h₁⟩ := Item.LaidOut.terminal h
  obtain ⟨k₂, hitems, h₂⟩ := h₁.append
  obtain ⟨hclose, h₃⟩ := h₂.terminal
  obtain rfl := h₃.nil
  have hahead : k₂.ahead = .parenClose := hclose.ahead
  have hfirst := hitems.ahead (P := (· ∈ Lexeme.parenClose :: S)) (by
    simp only [List.mem_map, forall_exists_index, and_imp]
    rintro _ a ha rfl l hl
    exact List.mem_cons_of_mem _ (hstarts a ha l hl)) (by simp [hahead])
  refine (Reader.gives_expect hopen ?_).bind fun opener _ => ?_
  · intro heq
    rw [heq, List.mem_cons] at hfirst
    exact hfirst.elim (by decide) (hnot .unknown (by decide))
  refine (gives_untilClosing hitems hahead hstarts
    ⟨hnot .parenClose (by decide), hnot .eof (by decide)⟩ hread).bind fun as' has' => ?_
  refine ((Reader.takes_advance hclose).gives hnext).bind fun _ _ => ?_
  exact Reader.Gives.pure has'

/-- Parts between parentheses, which may be left out around nothing. -/
theorem gives_inParentheses {written : List Item} (hwritten : InParentheses (as.map f) written)
    (h : Item.LaidOut σ g written k k') (hnext : k'.ahead ∉ [.unknown, .parenOpen])
    (hstarts : ∀ a ∈ as, ∀ l ∈ (f a).firsts, l ∈ S)
    (hnot : ∀ l ∈ [.parenClose, .eof, .unknown], l ∉ S)
    (hread : ∀ a ∈ as, ∀ k₁ k₂, Item.LaidOut σ g [f a] k₁ k₂ →
      k₂.ahead ∈ .parenClose :: S → item.read.Gives k₁ k₂ fun a' => m a' = a) :
    (Reader.whenAt .parenOpen [] item.parenthesised).Gives k k' fun as' => as'.map m = as := by
  simp only [List.mem_cons, List.not_mem_nil, or_false, not_or] at hnext
  generalize hitems : as.map f = items at hwritten
  cases hwritten with
  | absent =>
    obtain rfl := h.nil
    obtain rfl := List.map_eq_nil_iff.mp hitems
    exact Reader.Gives.whenAt_absent hnext.2 rfl
  | present =>
    subst hitems
    refine Reader.Gives.whenAt (List.mem_singleton.mp h.ahead_mem) ?_
    exact gives_parenthesised h hnext.1 hstarts hnot hread

end Production

end GraphQLSyntax
