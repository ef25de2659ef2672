import GraphQLSyntax.Proofs.Grammar.BreaksOff

/-!
# Repeated parts that break off

* `Production.breaks_whileAt`: parts in a row break off in one of them.
* `Production.untilClosing_error`: what is opened before some parts stays open where the text ends
  behind them, or where one of them breaks off.
* `Production.stops_enclosed`: parts between brackets.
-/

namespace GraphQLSyntax

namespace Production

open Reader

variable {α β : Type} {item : Production α} {f : α → Item} {P : α → Prop} {sets : Bool}
  {k : Cursor}

/-- Where the parts in a row come to an error, whole ones stand before it. -/
theorem repeatWhile_error {more : Scanner → Except SyntaxError Bool} {e : SyntaxError}
    (h : item.read.Reads fun a items _ => items = [f a] ∧ P a)
    (he : item.repeatWhile more (.ofCursor k) = .error e) :
    ∃ (as : List α) (pieces : List Piece) (k' : Cursor), Laid k pieces k' ∧
      Item.Spelled .reading (as.map f) pieces ∧
      (more (.ofCursor k'.skipTrivia) = .error e ∨ item.read (.ofCursor k') = .error e) := by
  unfold repeatWhile at he
  dsimp only at he
  generalize hr : Reading.ofCursor k = r at he
  fun_induction collect item more r generalizing k with
  | case1 r e' hmore =>
    cases he
    subst hr
    exact ⟨[], [], k, rfl, .nil, .inl hmore⟩
  | case2 => cases he
  | case3 r hmore e' hread =>
    cases he
    subst hr
    exact ⟨[], [], k, rfl, .nil, .inr hread⟩
  | case4 r hmore a r₁ hread hlt items ending heq ih =>
    subst hr
    obtain ⟨k₁, _, first, rfl, hfirst, hspelled, rfl, -⟩ := h k a r₁ hread
    rw [heq] at ih
    obtain ⟨as, pieces, k', hlaid, has, herror⟩ := ih rfl (by
      cases ending with
      | error e' =>
        cases he
        rfl
      | ok r' => cases he)
    exact ⟨a :: as, first ++ pieces, k', hfirst.append hlaid, hspelled.append has, herror⟩

/-- Parts in a row break off in one of them. -/
theorem breaks_repeatWhile {more : Scanner → Except SyntaxError Bool}
    (hmore : ∀ s e, more s ≠ .error e)
    (h : item.read.Reads fun a items _ => items = [f a] ∧ P a)
    (hbreaks : item.read.Breaks sets fun a items => items = [f a]) :
    (item.repeatWhile more).Breaks sets fun as items => items = as.map f := by
  intro k e he
  obtain ⟨as, pieces, k', hlaid, hspelled, herror | hread⟩ := repeatWhile_error h he
  · exact absurd herror (hmore _ e)
  · obtain ⟨a, _, rfl, ha⟩ := hbreaks k' e hread
    refine ⟨as ++ [a], _, rfl, ?_⟩
    rw [List.map_append]
    exact ha.prepend hspelled hlaid

theorem breaks_whileAt {kind : Lexeme} (h : item.read.Reads fun a items _ => items = [f a] ∧ P a)
    (hbreaks : item.read.Breaks sets fun a items => items = [f a]) :
    (item.whileAt kind).Breaks sets fun as items => items = as.map f :=
  breaks_repeatWhile (by rintro s e ⟨⟩) h hbreaks

variable {close kind : Lexeme} {c d : Char} {e : SyntaxError} {delimiter message : String}

/-- What is refused behind the bracket that closes some parts. -/
theorem stops_closed {k' : Cursor} {as : List α} {pieces : List Piece}
    (hlaid : (Terminal.lexeme kind delimiter).LaidAt k)
    (hpieces : Laid (k.behind (.lexeme kind delimiter)) pieces k')
    (hspelled : Item.Spelled .reading (as.map f) pieces) (hclose : k'.ahead = close)
    (hclosing : close.punctuator? = some d) (he : advance (.ofCursor k') = .error e) :
    Item.Stops e sets k
      (.word kind delimiter :: (as.map f ++ [.word close (String.singleton d)])) := by
  obtain ⟨hcloser, hplain⟩ := advance_word_error hclose hclosing he
  exact .behind (.terminal _ _ (hspelled.append (spelled_terminal _ _)))
    ((Laid.single hlaid).append (hpieces.append (.single hcloser))) hplain

section

variable [Inhabited α]

/-- A bracket stays open where the text ends behind some parts. Any part might have followed, and
some rules ask for one. -/
theorem stops_unclosed {bracket : Terminal} {k' : Cursor} {as : List α} {pieces : List Piece}
    (hf : ∀ a, (f a).isLeaf = false) (hbracket : bracket.IsOpening) (hlaid : bracket.LaidAt k)
    (hpieces : Laid (k.behind bracket) pieces k')
    (hspelled : Item.Spelled .reading (as.map f) pieces) (heof : k'.ahead = .eof)
    (behind : List Item) :
    Item.Stops ((Scanner.ofCursor k'.skipTrivia).unclosed (String.ofList bracket.chars) message
      (k.spanOf bracket)) sets k (.terminal bracket :: ((as ++ [default]).map f ++ behind)) := by
  let opener : Piece := ⟨bracket, k.spanOf bracket⟩
  have hopener : opener.terminal.IsOpening := hbracket
  have hwithin : Laid k (opener :: pieces) k' := (Laid.single hlaid).append hpieces
  have hfront : Item.Spelled .reading (.terminal bracket :: as.map f) (opener :: pieces) :=
    .terminal _ _ hspelled
  have hparts : ∀ item ∈ as.map f, item.isLeaf = false := by simpa using fun a _ => hf a
  rw [List.map_append, List.append_assoc]
  refine ⟨⟨opener :: pieces, k', .front hfront, hwithin,
    .of_start (Scanner.failureSpan_start _) nofun,
    (SyntaxError.PointsBack.error _ _ _).withPointing List.mem_cons_self hopener message⟩,
    fun _ => ?_⟩
  have hopened : Item.Opened .reading
      ([] ++ .terminal opener.terminal :: (as.map f ++ ([default].map f ++ behind)))
      ([] ++ opener :: pieces) opener :=
    .bracket .nil hopener hparts hspelled
  refine .opened hopened hwithin (Cursor.gap_of_ahead heof)
    ⟨rfl, ⟨message, rfl⟩, Nat.le_trans hwithin.start_le ?_⟩
  show k'.position.byteOffset ≤ (Scanner.failureSpan _).start.byteOffset
  rw [Scanner.failureSpan_start]
  exact k'.byteOffset_le_skipTrivia

/-- What is opened before some parts stays open where the text ends behind them, or one of them
breaks off. At least one part is there or to come. -/
theorem untilClosing_error {bracket : Terminal}
    (h : item.read.Reads fun a items _ => items = [f a] ∧ P a)
    (hbreaks : item.read.Breaks sets fun a items => items = [f a])
    (hf : ∀ a, (f a).isLeaf = false) (hbracket : bracket.IsOpening) (hlaid : bracket.LaidAt k)
    (he : item.untilClosing close (fun s =>
      s.unclosed (String.ofList bracket.chars) message (k.spanOf bracket))
        (.ofCursor (k.behind bracket)) = .error e) :
    ∃ as ≠ [], ∀ behind, Item.Stops e sets k (.terminal bracket :: (as.map f ++ behind)) := by
  obtain ⟨as, pieces, k', hpieces, hspelled, hmore | hread⟩ := repeatWhile_error h he
  · split at hmore
    · cases hmore
    · split at hmore
      · rename_i heof
        obtain rfl := Except.error.inj hmore
        exact ⟨as ++ [default], by simp,
          stops_unclosed hf hbracket hlaid hpieces hspelled heof⟩
      · cases hmore
  · obtain ⟨a, _, rfl, ha⟩ := hbreaks k' e hread
    refine ⟨as ++ [a], by simp, fun behind => ?_⟩
    have hopener := Reader.spelled_terminal bracket (k.spanOf bracket)
    have hprepend := (ha.append behind).prepend (hopener.append hspelled)
      ((Laid.single hlaid).append hpieces)
    rw [List.map_append, List.append_assoc]
    exact hprepend

/-- An error behind a bracket comes up among the parts there, or behind them. -/
theorem enclosed_error {expected : List String} {g : Token → List α → Reader β}
    (hkind : kind.punctuator? = some c) (hdelimiter : delimiter = String.singleton c)
    (hbracket : (Terminal.lexeme kind delimiter).IsOpening)
    (h : item.read.Reads fun a items _ => items = [f a] ∧ P a)
    (hbreaks : item.read.Breaks sets fun a items => items = [f a])
    (hf : ∀ a, (f a).isLeaf = false)
    (he : (expect kind expected >>= fun opener => item.untilClosing close (fun s =>
      s.unclosed delimiter message opener.span) >>= g opener) (.ofCursor k) = .error e) :
    (∃ as ≠ [], ∀ behind,
      Item.Stops e sets k (.word kind delimiter :: (as.map f ++ behind))) ∨
    ∃ opener as pieces k', (Terminal.lexeme kind delimiter).LaidAt k ∧
      opener.span = k.spanOf (.lexeme kind delimiter) ∧
      Laid (k.behind (.lexeme kind delimiter)) pieces k' ∧
      Item.Spelled .reading (as.map f) pieces ∧ k'.ahead = close ∧
      g opener as (.ofCursor k') = .error e := by
  subst hdelimiter
  rcases bind_eq_error.mp he with he | ⟨opener, r₁, hopen, he⟩
  · have hword : (expect kind expected).Breaks sets _ := Breaks.word hkind expected
    obtain ⟨-, _, rfl, hstops⟩ := hword k e he
    exact .inl ⟨[default], by simp, fun behind => hstops.append _⟩
  obtain ⟨hlaid, rfl, rfl⟩ := expect_word_eq_ok hkind hopen
  rcases bind_eq_error.mp he with hitems | ⟨as, r₂, hitems, hg⟩
  · have hunclosed : item.untilClosing close (fun s =>
        s.unclosed (String.ofList (Terminal.lexeme kind (String.singleton c)).chars) message
          (k.spanOf (.lexeme kind (String.singleton c))))
        (.ofCursor (k.behind (.lexeme kind (String.singleton c)))) = .error e := by
      rw [Terminal.chars, String.ofList_toList]
      exact hitems
    exact .inl (untilClosing_error h hbreaks hf hbracket hlaid hunclosed)
  · obtain ⟨k', _, pieces, rfl, hpieces, hspelled, rfl, -, hclose⟩ :=
      reads_untilClosing h _ as r₂ hitems
    exact .inr ⟨_, as, pieces, k', hlaid, rfl, hpieces, hspelled, hclose, hg⟩

/-- Parts between brackets break off in one of them, or behind them all. -/
theorem stops_enclosed {expected : List String} {g : Token → List α → β}
    (hkind : kind.punctuator? = some c) (hdelimiter : delimiter = String.singleton c)
    (hbracket : (Terminal.lexeme kind delimiter).IsOpening)
    (hclosing : close.punctuator? = some d)
    (h : item.read.Reads fun a items _ => items = [f a] ∧ P a)
    (hbreaks : item.read.Breaks sets fun a items => items = [f a])
    (hf : ∀ a, (f a).isLeaf = false)
    (he : (expect kind expected >>= fun opener => item.untilClosing close (fun s =>
      s.unclosed delimiter message opener.span) >>= fun as => advance >>= fun _ =>
        pure (g opener as)) (.ofCursor k) = .error e) :
    ∃ as : List α, Item.Stops e sets k
      (.word kind delimiter :: (as.map f ++ [.word close (String.singleton d)])) := by
  obtain ⟨as, -, hopen⟩ | ⟨opener, as, pieces, k', hlaid, -, hpieces, hspelled, hclose, herror⟩ :=
    enclosed_error hkind hdelimiter hbracket h hbreaks hf he
  · exact ⟨as, hopen _⟩
  · rcases bind_eq_error.mp herror with herror | ⟨-, -, -, ⟨⟩⟩
    exact ⟨as, stops_closed hlaid hpieces hspelled hclose hclosing herror⟩

end

end Production

end GraphQLSyntax
