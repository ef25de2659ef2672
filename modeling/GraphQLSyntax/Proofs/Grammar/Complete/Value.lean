import GraphQLSyntax.Proofs.Grammar.Gives
import GraphQLSyntax.Proofs.Lexical.Keyword

/-!
# Values that are written are read

* `Reader.gives_value`: a value is read where it stands.
-/

namespace GraphQLSyntax

variable {σ : Convention} {g : Position → Position} {k k' : Cursor}

/-- A literal is its text at its place. -/
theorem Token.IsLiteral.map_eq {t : Token} {span : Span} (h : t.IsLiteral)
    (hspan : span.map g = t.span) : (Token.literal t.lexeme t.text span).map g = t := by
  obtain ⟨lexeme, text, _, type⟩ := t
  obtain ⟨-, htype, -⟩ := h
  obtain rfl : type = TokenType.ofLexeme? lexeme := htype
  obtain rfl := hspan
  rfl

namespace Reader

variable {kind : Lexeme} {text : String}

theorem gives_namedValue (h : (Terminal.lexeme .name text).LaidAt k)
    (hnext : (k.behind (.lexeme .name text)).ahead ≠ .unknown) :
    namedValue.Gives k (k.behind (.lexeme .name text))
      (· = Value.ofName (.plain .name text (k.spanOf (.lexeme .name text)))) := by
  refine (gives_take h hnext).bind ?_
  rintro _ rfl
  exact Gives.pure rfl

theorem gives_literal (h : (Terminal.lexeme kind text).LaidAt k)
    (hnext : (k.behind (.lexeme kind text)).ahead ≠ .unknown) :
    (literal kind).Gives k (k.behind (.lexeme kind text))
      (· = .scalar (.literal kind text (k.spanOf (.lexeme kind text)))) := by
  refine (gives_take h hnext).bind ?_
  rintro _ rfl
  exact Gives.pure rfl

/-- A scalar is read where its token stands. -/
theorem gives_scalar {list : Reader Value} {t : Token} (ht : t.IsLiteral)
    (h : (Part.token t).LaidOut σ g k k') (hnext : k'.ahead ≠ .unknown) :
    (valueWith list).Gives k k' fun v => v.map g = .scalar t := by
  obtain ⟨hlaid, rfl, hspan⟩ := h.token
  have hmap {span : Span} {kind : Lexeme} (hkind : t.lexeme = kind) (hspan : span.map g = t.span) :
      (Value.scalar (.literal kind t.text span)).map g = .scalar t := by
    subst hkind
    exact congrArg Value.scalar (ht.map_eq hspan)
  have hkind := ht.1
  refine Gives.lexeme_bind ?_
  rw [hlaid.ahead]
  unfold Token.terminal at hlaid hspan hnext ⊢
  simp only [List.mem_cons, List.not_mem_nil, or_false] at hkind
  rcases hkind with hkind | hkind | hkind | hkind | hkind | hkind <;>
    rw [hkind] at hlaid hspan hnext ⊢
  case inl => exact (gives_literal hlaid hnext).mono (by rintro _ rfl; exact hmap hkind hspan)
  case inr.inl => exact (gives_literal hlaid hnext).mono (by rintro _ rfl; exact hmap hkind hspan)
  case inr.inr.inl =>
    exact (gives_literal hlaid hnext).mono (by rintro _ rfl; exact hmap hkind hspan)
  case inr.inr.inr.inl =>
    exact (gives_literal hlaid hnext).mono (by rintro _ rfl; exact hmap hkind hspan)
  case inr.inr.inr.inr.inl =>
    refine (gives_namedValue hlaid hnext).mono ?_
    rintro _ rfl
    unfold Value.ofName
    dsimp only [Token.plain]
    rw [KeywordTable.value_classify_of_notMem (ht.2.2 hkind)]
    exact hmap hkind hspan
  case inr.inr.inr.inr.inr =>
    refine ⟨_, (object_eq_ok hlaid.ahead).mpr ⟨t.text, ⟨hlaid, hnext, rfl⟩, rfl⟩, ?_⟩
    exact hmap hkind hspan

/-- A list is read where it stands, if its items are. -/
theorem gives_list {item : Production Value} {items : List Value} {span : Span}
    (h : (Part.node (.value (.list items span))).LaidOut σ g k k') (hnext : k'.ahead ≠ .unknown)
    (hitem : ∀ v ∈ items, ∀ k k', (Part.node (.value v)).LaidOut σ g k k' → k'.ahead ≠ .unknown →
      item.read.Gives k k' fun v' => v'.map g = v) :
    (list item).Gives k k' fun v => v.map g = .list items span := by
  obtain ⟨-, ⟨_, hrule, hitems⟩, hspans⟩ := h.node
  have hspan := hspans span rfl
  cases hrule with
  | list =>
    obtain ⟨hopen, h₁⟩ := hitems.terminal
    obtain ⟨k₂, hvalues, h₂⟩ := h₁.append
    obtain ⟨hclose, h₃⟩ := h₂.terminal
    obtain rfl := h₃.nil
    have hahead : k₂.ahead = .squareClose := hclose.ahead
    refine Gives.spanned ?_
    refine (gives_expect hopen (h₁.ahead_ne (by simp) hnext)).bind fun opener _ => ?_
    refine (Production.gives_untilClosing (m := Value.map g) hvalues hahead (fun v _ l hl => hl)
      (by simp) fun v hv k₁ k₂ hlaid hk₂ => ?_).bind fun values hvalues => ?_
    · refine hitem v hv k₁ k₂ hlaid.single ?_
      intro heq
      rw [heq] at hk₂
      exact absurd hk₂ (by decide)
    · refine ((takes_advance hclose).gives hnext).bind fun _ _ => ?_
      refine Gives.pure ?_
      rw [Value.map, Value.mapAll_eq, hvalues, hspan]

theorem gives_valueWith {list : Reader Value} {v : Value}
    (h : (Part.node (.value v)).LaidOut σ g k k') (hnext : k'.ahead ≠ .unknown)
    (hlist : ∀ items span, v = .list items span → list.Gives k k' fun v' => v'.map g = v) :
    (valueWith list).Gives k k' fun v' => v'.map g = v := by
  obtain ⟨hwf, ⟨_, hrule, hitems⟩, -⟩ := h.node
  have hword {text : String} {value : Value}
      (hitems : Item.LaidOut σ g [.keyword text] k k')
      (hvalue : ∀ span, (Value.ofName (.plain .name text span)).map g = value) :
      (valueWith list).Gives k k' fun v' => v'.map g = value := by
    obtain ⟨hlaid, h'⟩ := hitems.terminal
    obtain rfl := h'.nil
    refine Gives.lexeme_bind ?_
    rw [hlaid.ahead]
    refine (gives_namedValue hlaid hnext).mono ?_
    rintro _ rfl
    exact hvalue _
  cases hrule with
  | true => exact hword hitems fun _ => rfl
  | false => exact hword hitems fun _ => rfl
  | null => exact hword hitems fun _ => rfl
  | scalar token => exact gives_scalar hwf hitems.single hnext
  | list items span =>
    refine Gives.lexeme_bind ?_
    rw [hitems.terminal.1.ahead]
    exact hlist items span rfl

/-- Values are read with the lists that they have. -/
theorem gives_value_depth {depth : Nat} {v : Value}
    (h : (Part.node (.value v)).LaidOut σ g k k') (hnext : k'.ahead ≠ .unknown)
    (hdepth : v.listDepth ≤ depth) :
    (Production.value depth).read.Gives k k' fun v' => v'.map g = v := by
  induction depth generalizing v k k' with
  | zero =>
    refine gives_valueWith h hnext ?_
    rintro items span rfl
    exact absurd hdepth (Nat.not_succ_le_zero _)
  | succ depth ih =>
    refine gives_valueWith h hnext ?_
    rintro items span rfl
    have hitems := Value.itemsDepth_le_iff.mp (Nat.le_of_succ_le_succ hdepth)
    exact gives_list h hnext fun v hv k k' hlaid hnext => ih hlaid hnext (hitems v hv)

/-- A value is read where it stands. -/
theorem gives_value {v : Value} (h : (Part.node (.value v)).LaidOut σ g k k')
    (hnext : k'.ahead ≠ .unknown) : value.Gives k k' fun v' => v'.map g = v := by
  refine gives_value_depth h hnext ?_
  have hwf : v.WellFormed := h.node.1
  cases v with
  | list items span => exact hwf
  | _ => exact Nat.zero_le _

end Reader

end GraphQLSyntax
