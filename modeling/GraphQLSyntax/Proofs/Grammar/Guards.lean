import GraphQLSyntax.Proofs.Grammar.Gives
import GraphQLSyntax.Proofs.Print.Leveled
import GraphQLSyntax.Proofs.Print.RoundTrip

/-!
# Readers that guard levels

A text is walked over terminal by terminal, up to the first that opens a level too many. A reader
guards some terminals if it gets exactly as far.

* `Leveled.LaidOut`: terminals stand between two cursors.
* `Leveled.walk`: the way over some terminals. `Leveled.walk_append` joins two ways.
* `Reader.Guards`: a reader gets as far as the walk, and ends in the same error.
* `Reader.Guards.step`, `Reader.Guards.bind`: readers in a row.
* `Production.guards_enclosed`, `Production.guards_parenthesised`: repeated parts.
-/

namespace GraphQLSyntax

variable {k k' k'' : Cursor} {x : Leveled} {xs ys : List Leveled} {S : List Lexeme}

namespace Leveled

/-! ## Terminals between two cursors -/

/-- Terminals stand one behind the other, from one cursor to the other. -/
def LaidOut (xs : List Leveled) (k k' : Cursor) : Prop :=
  ∃ pieces, Laid k pieces k' ∧ pieces.map (·.terminal) = terminals xs

namespace LaidOut

theorem empty (k : Cursor) : LaidOut [] k k := ⟨[], rfl, rfl⟩

theorem nil (h : LaidOut [] k k') : k' = k := by
  obtain ⟨pieces, hlaid, hpieces⟩ := h
  obtain rfl := List.map_eq_nil_iff.mp hpieces
  exact hlaid

theorem cons (h : LaidOut (x :: xs) k k') :
    x.terminal.LaidAt k ∧ LaidOut xs (k.behind x.terminal) k' := by
  obtain ⟨pieces, hlaid, hpieces⟩ := h
  obtain ⟨p, ps, rfl, hp, hps⟩ := List.map_eq_cons_iff.mp hpieces
  obtain ⟨hat, -, hlaid⟩ := hlaid
  rw [← hp]
  exact ⟨hat, ps, hlaid, hps⟩

theorem single (h : LaidOut [x] k k') : x.terminal.LaidAt k ∧ k' = k.behind x.terminal :=
  ⟨h.cons.1, h.cons.2.nil⟩

theorem append (h : LaidOut (xs ++ ys) k k'') :
    ∃ k', LaidOut xs k k' ∧ LaidOut ys k' k'' := by
  obtain ⟨pieces, hlaid, hpieces⟩ := h
  rw [terminals_append] at hpieces
  obtain ⟨ps, qs, rfl, hps, hqs⟩ := List.map_eq_append_iff.mp hpieces
  obtain ⟨k', hlaid, hlaid'⟩ := Laid.append_iff.mp hlaid
  exact ⟨k', ⟨ps, hlaid, hps⟩, ⟨qs, hlaid', hqs⟩⟩

theorem pair {y : Leveled} (h : LaidOut (x :: y :: xs) k k'') :
    ∃ k', LaidOut [x, y] k k' ∧ LaidOut xs k' k'' := by
  rw [show x :: y :: xs = [x, y] ++ xs from rfl] at h
  exact h.append

/-- Terminals between two others that enclose them. -/
theorem enclosed {opener close : Terminal} {opens : Option Opening}
    (h : LaidOut (⟨opener, opens⟩ :: (xs ++ [plain close])) k k') :
    opener.LaidAt k ∧ ∃ k₂, LaidOut xs (k.behind opener) k₂ ∧ close.LaidAt k₂ ∧
      k' = k₂.behind close := by
  obtain ⟨hopen, h₁⟩ := h.cons
  obtain ⟨k₂, hitems, hclose⟩ := h₁.append
  exact ⟨hopen, k₂, hitems, hclose.single⟩

/-- Items stand where the terminals that spell them do. -/
theorem items {items : List Item} (h : LaidOut xs k k')
    (hitems : Item.Printed items (terminals xs)) :
    Item.LaidOut .printing Position.forget items k k' := by
  obtain ⟨pieces, hlaid, hpieces⟩ := h
  refine ⟨pieces, hlaid, ?_⟩
  rw [Piece.map_forget, hpieces]
  exact hitems.spelled

end LaidOut

/-! ## The next lexeme -/

/-- Some terminals start with a lexeme of one of these kinds. -/
def Starts (S : List Lexeme) (xs : List Leveled) : Prop :=
  ∃ x rest, xs = x :: rest ∧ x.terminal.ahead ∈ S

theorem starts_cons (h : x.terminal.ahead ∈ S) : Starts S (x :: xs) := ⟨x, xs, rfl, h⟩

theorem Starts.append (h : Starts S xs) (ys : List Leveled) : Starts S (xs ++ ys) := by
  obtain ⟨x, rest, rfl, hx⟩ := h
  exact starts_cons hx

theorem Starts.ne_nil (h : Starts S xs) : xs ≠ [] := by
  obtain ⟨x, rest, rfl, -⟩ := h
  exact List.cons_ne_nil x rest

namespace LaidOut

theorem ahead_eq (h : LaidOut (x :: xs) k k') : k.ahead = x.terminal.ahead := h.cons.1.ahead

theorem ahead_of {l : Lexeme} (h : LaidOut (x :: xs) k k') (hl : x.terminal.ahead = l) :
    k.ahead = l := h.ahead_eq.trans hl

theorem ahead_mem (h : LaidOut xs k k') (hstarts : Starts S xs) : k.ahead ∈ S := by
  obtain ⟨x, rest, rfl, hx⟩ := hstarts
  rwa [h.ahead_eq]

/-- The next lexeme is one that the parts in a row start with, or follows all of them. -/
theorem ahead_flatMap {α : Type} {as : List α} {f : α → List Leveled}
    (h : LaidOut (as.flatMap f) k k') (hstarts : ∀ a ∈ as, Starts S (f a)) :
    k.ahead ∈ k'.ahead :: S := by
  cases as with
  | nil =>
    rw [h.nil]
    exact List.mem_cons_self
  | cons a as => exact List.mem_cons_of_mem _ (h.ahead_mem ((hstarts a (by simp)).append _))

theorem ahead_parenthesised (h : LaidOut (parenthesised xs) k k') :
    k.ahead ∈ [k'.ahead, .parenOpen] := by
  unfold parenthesised at h
  split at h
  · rw [h.nil]
    exact List.mem_cons_self
  · exact List.mem_cons_of_mem _ (h.ahead_mem (starts_cons List.mem_cons_self))

end LaidOut

/-! ## The way over terminals -/

/-- Goes over terminals one by one. The first that opens a level too many ends the way. -/
def walk : List Leveled → Cursor → Except SyntaxError Cursor
  | [], k => .ok k
  | x :: xs, k =>
    if x.tooDeep then
      .error (Scanner.tooDeep (String.ofList x.terminal.chars) (k.spanOf x.terminal))
    else walk xs (k.behind x.terminal)

theorem walk_append (xs ys : List Leveled) (k : Cursor) :
    walk (xs ++ ys) k = (walk xs k).bind (walk ys) := by
  induction xs generalizing k with
  | nil => rfl
  | cons x xs ih =>
    rw [List.cons_append, walk, walk, ih]
    split <;> rfl

theorem walk_cons (h : x.tooDeep = false) (k : Cursor) :
    walk (x :: xs) k = walk xs (k.behind x.terminal) := by
  rw [walk, h]
  rfl

theorem walk_of_tooDeep (h : x.tooDeep = true) (k : Cursor) : walk (x :: xs) k =
    .error (Scanner.tooDeep (String.ofList x.terminal.chars) (k.spanOf x.terminal)) := by
  rw [walk, if_pos h]

/-- The way over terminals leads to where they end. -/
theorem LaidOut.eq_of_walk (h : LaidOut xs k k') (hwalk : walk xs k = .ok k'') : k'' = k' := by
  induction xs generalizing k with
  | nil =>
    obtain rfl := h.nil
    cases hwalk
    rfl
  | cons x xs ih =>
    rw [walk] at hwalk
    split at hwalk
    · cases hwalk
    · exact ih h.cons.2 hwalk

/-- Where no terminal opens a level too many, the way ends behind the last. -/
theorem LaidOut.walk_of_clear (h : LaidOut xs k k') (hclear : Clear xs) : walk xs k = .ok k' := by
  induction xs generalizing k with
  | nil => rw [h.nil, walk]
  | cons x xs ih =>
    rw [clear_cons] at hclear
    rw [walk_cons hclear.1]
    exact ih h.cons.2 hclear.2

end Leveled

open Leveled

/-! ## Readers -/

namespace Reader

variable {α β : Type} {P : α → Prop} {p : Reader α}

/-- A reader gets as far as the way over some terminals leads, and fails as it does. -/
def Guards (p : Reader α) (xs : List Leveled) (k : Cursor) : Prop :=
  (p (.ofCursor k)).map (·.2) = (walk xs k).map Reading.ofCursor

theorem Gives.guards (h : p.Gives k k' P) (hwalk : walk xs k = .ok k') : p.Guards xs k := by
  obtain ⟨a, ha, -⟩ := h
  rw [Guards, ha, hwalk]
  rfl

namespace Guards

theorem pure (a : α) (k : Cursor) : (Pure.pure a : Reader α).Guards [] k := rfl

theorem lexeme_bind {f : Lexeme → Reader α} (h : (f k.ahead).Guards xs k) :
    (lexeme >>= f).Guards xs k := h

theorem keyword_bind {f : Lexeme → Reader α} (h : (f k.keyword).Guards xs k) :
    (keyword >>= f).Guards xs k := h

theorem token_bind {f : Token → Reader α}
    (h : (f (Reading.ofCursor k).scanner.token).Guards xs k) : (token >>= f).Guards xs k := h

/-- A reader behind another goes on where that one ends. -/
theorem bind {f : α → Reader β} (hp : p.Guards xs k) (hlaid : LaidOut xs k k')
    (hf : ∀ a, p (.ofCursor k) = .ok (a, .ofCursor k') → (f a).Guards ys k') :
    (p >>= f).Guards (xs ++ ys) k := by
  unfold Guards at hp ⊢
  rw [bind_apply, walk_append]
  cases hwalk : walk xs k with
  | error e =>
    cases hread : p (.ofCursor k) with
    | error e' =>
      rw [hwalk, hread] at hp
      exact hp
    | ok q =>
      rw [hwalk, hread] at hp
      cases hp
  | ok k₁ =>
    obtain rfl := hlaid.eq_of_walk hwalk
    cases hread : p (.ofCursor k) with
    | error e =>
      rw [hwalk, hread] at hp
      cases hp
    | ok q =>
      rw [hwalk, hread] at hp
      obtain ⟨a, r⟩ := q
      obtain rfl : r = .ofCursor k₁ := Except.ok.inj hp
      exact hf a hread

/-- A reader behind one terminal goes on where that ends. -/
theorem step {f : α → Reader β} (hx : x.tooDeep = false)
    (hp : p.Gives k (k.behind x.terminal) P)
    (hf : ∀ a, P a → (f a).Guards xs (k.behind x.terminal)) : (p >>= f).Guards (x :: xs) k := by
  obtain ⟨a, ha, hPa⟩ := hp
  unfold Guards
  rw [bind_apply, ha, walk_cons hx]
  exact hf a hPa

/-- A reader that refuses a level too many guards what starts with it. -/
theorem refused (hx : x.tooDeep = true) (hp : p (.ofCursor k) =
      .error (Scanner.tooDeep (String.ofList x.terminal.chars) (k.spanOf x.terminal))) :
    p.Guards (x :: xs) k := by
  unfold Guards
  rw [hp, walk_of_tooDeep hx]
  rfl

/-- What becomes of a result does not matter. -/
theorem map (h : p.Guards xs k) (f : α → β) : (p >>= fun a => Pure.pure (f a)).Guards xs k := by
  unfold Guards at h ⊢
  rw [← h, bind_apply]
  cases p (.ofCursor k) <;> rfl

theorem spanned {part : Reader (Span → α)} (h : part.Guards xs k) :
    (Reader.spanned part).Guards xs k := by
  unfold Guards at h ⊢
  rw [← h]
  unfold Reader.spanned
  cases part (.ofCursor k) <;> rfl

theorem whenAt {kind : Lexeme} {otherwise : α} {part : Reader α} (h : k.ahead = kind)
    (hpart : part.Guards xs k) : (Reader.whenAt kind otherwise part).Guards xs k := by
  apply lexeme_bind
  rwa [if_pos h]

theorem whenAt_absent {kind : Lexeme} {otherwise : α} {part : Reader α} (h : k.ahead ≠ kind) :
    (Reader.whenAt kind otherwise part).Guards [] k := by
  apply lexeme_bind
  rw [if_neg h]
  exact pure otherwise k

end Guards

/-! ## Terminals -/

variable {t : Token}

/-- A plain name is read where its terminal stands. -/
theorem gives_plainName {what : String} (ht : t.IsPlainName) (h : t.terminal.LaidAt k)
    (hnext : (k.behind t.terminal).ahead ≠ .unknown) :
    (name what).Gives k (k.behind t.terminal) fun _ => True := by
  rw [ht.terminal_eq] at h hnext ⊢
  exact (gives_expect h hnext).mono fun _ _ => trivial

theorem ahead_plainName (ht : t.IsPlainName) : t.terminal.ahead = .name := by
  rw [ht.terminal_eq]
  rfl

/-- A sigil is read with the name that touches it. -/
theorem gives_sigil {c : Char} {kind : Lexeme} {text what : String} {expected : List String}
    (hc : Lexical.single? c = some kind) (hkind : kind = .dollar ∨ kind = .atSign)
    (h : (Terminal.sigilName c text).LaidAt k)
    (hnext : (k.behind (.sigilName c text)).ahead ≠ .unknown) :
    (sigilName kind expected what).Gives k (k.behind (.sigilName c text)) fun _ => True :=
  ⟨_, (sigilName_eq_ok hc hkind).mpr ⟨text, ⟨h, hnext, rfl⟩, rfl⟩, trivial⟩

/-- The terminal that closes some parts is passed at their end. -/
theorem guards_advance {kind : Lexeme} {text : String} (h : (Terminal.lexeme kind text).LaidAt k)
    (hnext : (k.behind (.lexeme kind text)).ahead ≠ .unknown) (a : α) :
    (advance >>= fun _ => Pure.pure a).Guards [plain (.lexeme kind text)] k :=
  Guards.step rfl ((takes_advance h).gives hnext) fun _ _ => Guards.pure a _

end Reader

/-! ## Repeated parts -/

namespace Production

variable {α β γ : Type} {item : Production α} {as : List β} {f : β → List Leveled}

/-- Parts in a row are guarded, if each of them is in front of the next one or of what follows them
all. -/
theorem guards_repeatWhile {more : Scanner → Except SyntaxError Bool}
    (h : LaidOut (as.flatMap f) k k') (hstarts : ∀ a ∈ as, Starts S (f a))
    (hmore : ∀ k : Cursor, k.ahead ∈ S → more (.ofCursor k.skipTrivia) = .ok true)
    (hend : more (.ofCursor k'.skipTrivia) = .ok false)
    (hread : ∀ a ∈ as, ∀ k₁ k₂, LaidOut (f a) k₁ k₂ → k₂.ahead ∈ k'.ahead :: S →
      item.read.Guards (f a) k₁) :
    (item.repeatWhile more).Guards (as.flatMap f) k := by
  induction as generalizing k with
  | nil =>
    obtain rfl := h.nil
    rw [Reader.Guards, repeatWhile_of_end hend]
    rfl
  | cons a as ih =>
    rw [List.flatMap_cons] at h ⊢
    obtain ⟨k₁, hfirst, hrest⟩ := h.append
    have hnext := hrest.ahead_flatMap fun b hb => hstarts b (by simp [hb])
    have hahead : k.ahead ∈ S := hfirst.ahead_mem (hstarts a (by simp))
    rw [Reader.Guards, repeatWhile_of_more (hmore k hahead)]
    refine (hread a (by simp) k k₁ hfirst hnext).bind hfirst fun a' _ => ?_
    exact (ih hrest (fun b hb => hstarts b (by simp [hb]))
      fun b hb => hread b (by simp [hb])).map (List.cons a')

/-- Where there is an item, one is read. -/
theorem ne_nil_of_repeatWhile {more : Scanner → Except SyntaxError Bool} {items : List α}
    {r : Reading} (h : LaidOut (as.flatMap f) k k') (hstarts : ∀ a ∈ as, Starts S (f a))
    (hmore : ∀ k : Cursor, k.ahead ∈ S → more (.ofCursor k.skipTrivia) = .ok true)
    (hread : item.repeatWhile more (.ofCursor k) = .ok (items, r)) (hne : as ≠ []) :
    items ≠ [] := by
  rintro rfl
  obtain ⟨a, rest, rfl⟩ := List.exists_cons_of_ne_nil hne
  have hahead : k.ahead ∈ S := h.ahead_mem ((hstarts a (by simp)).append _)
  obtain ⟨-, hend, -⟩ | ⟨_, _, _, heq, -⟩ := repeatWhile_cases hread
  · rw [show more (Reading.ofCursor k).scanner = .ok true from hmore k hahead] at hend
    cases hend
  · cases heq

/-- Parts between two terminals are guarded, if each of them is. What is done at the end may depend
on whether there are any. -/
theorem guards_enclosed {start close : Lexeme} {startText closeText : String}
    {opens : Option Opening} {expected : List String} {unclosed : Token → Scanner → SyntaxError}
    {finish : Token → List α → Reader γ}
    (h : LaidOut (⟨.lexeme start startText, opens⟩ ::
      (as.flatMap f ++ [plain (.lexeme close closeText)])) k k')
    (hopens : tooDeep ⟨.lexeme start startText, opens⟩ = false) (hstarts : ∀ a ∈ as, Starts S (f a))
    (hnot : ∀ l ∈ [close, .eof, .unknown], l ∉ S) (hclose : close ≠ .unknown)
    (hread : ∀ a ∈ as, ∀ k₁ k₂, LaidOut (f a) k₁ k₂ → k₂.ahead ∈ close :: S →
      item.read.Guards (f a) k₁)
    (hfinish : ∀ opener items k₂, (items = [] → as = []) →
      (Terminal.lexeme close closeText).LaidAt k₂ → k' = k₂.behind (.lexeme close closeText) →
        (finish opener items).Guards [plain (.lexeme close closeText)] k₂) :
    Reader.Guards (do
      let opener ← Reader.expect start expected
      let items ← item.untilClosing close (unclosed opener)
      finish opener items)
    (⟨.lexeme start startText, opens⟩ ::
      (as.flatMap f ++ [plain (.lexeme close closeText)])) k := by
  obtain ⟨hopen, k₂, hitems, hat, hk'⟩ := h.enclosed
  have hk₂ : k₂.ahead = close := hat.ahead
  have hk₁ := hitems.ahead_flatMap hstarts
  have hmore (k : Cursor) (hk : k.ahead ∈ S) (unclosed : Scanner → SyntaxError) :
      (if k.ahead = close then .ok false
        else if k.ahead = .eof then .error (unclosed (.ofCursor k.skipTrivia))
        else .ok true : Except SyntaxError Bool) = .ok true := by
    rw [if_neg (by grind), if_neg (by grind)]
  refine Reader.Guards.step hopens (Reader.gives_expect hopen (by grind)) fun opener _ => ?_
  refine Reader.Guards.bind (guards_repeatWhile hitems hstarts (fun k hk => hmore k hk _)
    (if_pos hk₂) (hk₂ ▸ hread)) hitems fun items hread => ?_
  refine hfinish opener items k₂ (fun hempty => ?_) hat hk'
  by_contra hne
  exact ne_nil_of_repeatWhile hitems hstarts (fun k hk => hmore k hk _) hread hne hempty

theorem guards_whileAt {kind : Lexeme} (h : LaidOut (as.flatMap f) k k') (hnext : k'.ahead ≠ kind)
    (hstarts : ∀ a ∈ as, Starts [kind] (f a))
    (hread : ∀ a ∈ as, ∀ k₁ k₂, LaidOut (f a) k₁ k₂ → k₂.ahead ∈ [k'.ahead, kind] →
      item.read.Guards (f a) k₁) :
    (item.whileAt kind).Guards (as.flatMap f) k := by
  refine guards_repeatWhile h hstarts (fun k₁ hk₁ => ?_) ?_ hread
  · exact congrArg Except.ok (decide_eq_true (List.mem_singleton.mp hk₁))
  · exact congrArg Except.ok (decide_eq_false hnext)

/-- Parts between parentheses are guarded, if each of them is. -/
theorem guards_parenthesised (h : LaidOut (Leveled.parenthesised (as.flatMap f)) k k')
    (hnext : k'.ahead ∉ [.unknown, .parenOpen]) (hstarts : ∀ a ∈ as, Starts S (f a))
    (hnot : ∀ l ∈ [.parenClose, .eof, .unknown], l ∉ S)
    (hread : ∀ a ∈ as, ∀ k₁ k₂, LaidOut (f a) k₁ k₂ → k₂.ahead ∈ .parenClose :: S →
      item.read.Guards (f a) k₁) :
    (Reader.whenAt .parenOpen [] item.parenthesised).Guards
      (Leveled.parenthesised (as.flatMap f)) k := by
  simp only [List.mem_cons, List.not_mem_nil, or_false, not_or] at hnext
  cases as with
  | nil =>
    obtain rfl := LaidOut.nil h
    exact Reader.Guards.whenAt_absent hnext.2
  | cons a as =>
    have hne := ((hstarts a (by simp)).append (as.flatMap f)).ne_nil
    rw [← List.flatMap_cons] at hne
    unfold Leveled.parenthesised at h ⊢
    rw [if_neg (by simpa using hne)] at h ⊢
    refine Reader.Guards.whenAt h.ahead_eq (guards_enclosed h rfl hstarts hnot (by decide) hread ?_)
    rintro opener items k₂ - hclose rfl
    exact Reader.guards_advance hclose hnext.1 items

end Production

end GraphQLSyntax
