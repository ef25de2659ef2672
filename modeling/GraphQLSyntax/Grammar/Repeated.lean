import GraphQLSyntax.Grammar.Reader

/-!
# Repeated parts

* `Production`: a reader that advances, and so may be repeated.
* `Production.collect`: repeats a production. It gives what was read even where it ends in an error.
* `Production.repeatWhile`, `Production.untilClosing`: the readers that repeat a production.
-/

namespace GraphQLSyntax

/-- A reader that leaves less to read whenever it succeeds. -/
structure Production (α : Type) where
  read : Reader α
  advances : read.Advances

namespace Production

variable {α : Type}

/-- Reads one `item` after the other while `more` asks for it: the items, and where the reading
stands behind them or how it failed. -/
def collect (item : Production α) (more : Scanner → Except SyntaxError Bool) (r : Reading) :
    List α × Except SyntaxError Reading :=
  match more r.scanner with
  | .error e => ([], .error e)
  | .ok false => ([], .ok r)
  | .ok true =>
    match h : item.read r with
    | .error e => ([], .error e)
    | .ok (a, r') =>
      have := item.advances r a r' h
      let (items, ending) := item.collect more r'
      (a :: items, ending)
termination_by r.remaining

/-- Reads one `item` after the other while `more` asks for it. -/
def repeatWhile (item : Production α) (more : Scanner → Except SyntaxError Bool) :
    Reader (List α) := fun r =>
  let (items, ending) := item.collect more r
  ending.map fun r' => (items, r')

/-- Reads items up to the lexeme that closes them, which stays current. -/
def untilClosing (item : Production α) (close : Lexeme) (unclosed : Scanner → SyntaxError) :
    Reader (List α) :=
  item.repeatWhile fun s =>
    if s.lexeme = close then .ok false
    else if s.lexeme = .eof then .error (unclosed s)
    else .ok true

/-- Reads items while there is a lexeme of the kind that each of them starts with. -/
def whileAt (item : Production α) (kind : Lexeme) : Reader (List α) :=
  item.repeatWhile fun s => .ok (s.lexeme = kind)

/-- Reads items between parentheses. -/
def parenthesised (item : Production α) : Reader (List α) := do
  let opener ← Reader.expect .parenOpen ["("]
  let items ← item.untilClosing .parenClose fun s => s.unclosed "(" "`(` opened here" opener.span
  Reader.advance
  return items

/-! ## One item after the other -/

theorem repeatWhile_of_error {item : Production α} {more : Scanner → Except SyntaxError Bool}
    {r : Reading} {e : SyntaxError} (h : more r.scanner = .error e) :
    item.repeatWhile more r = .error e := by
  unfold repeatWhile collect
  rw [h]
  rfl

theorem repeatWhile_of_end {item : Production α} {more : Scanner → Except SyntaxError Bool}
    {r : Reading} (h : more r.scanner = .ok false) : item.repeatWhile more r = .ok ([], r) := by
  unfold repeatWhile collect
  rw [h]
  rfl

/-- Where there is one more item, it is read before the others. -/
theorem repeatWhile_of_more {item : Production α} {more : Scanner → Except SyntaxError Bool}
    {r : Reading} (h : more r.scanner = .ok true) : item.repeatWhile more r =
      (item.read >>= fun a => item.repeatWhile more >>= fun as => pure (a :: as)) r := by
  rw [Reader.bind_apply]
  conv => lhs; unfold repeatWhile collect
  rw [h]
  dsimp only
  split
  · rename_i e hread
    rw [hread]
    rfl
  · rename_i a r' hread
    rw [hread]
    dsimp only [Except.bind]
    rw [Reader.bind_apply]
    unfold repeatWhile
    obtain ⟨items, ending⟩ := item.collect more r'
    cases ending <;> rfl

/-- Where items are read, there were no more, or one was read before the others. -/
theorem repeatWhile_cases {item : Production α} {more : Scanner → Except SyntaxError Bool}
    {r r' : Reading} {as : List α} (h : item.repeatWhile more r = .ok (as, r')) :
    (as = [] ∧ more r.scanner = .ok false ∧ r' = r) ∨ ∃ a rest r₁, as = a :: rest ∧
      more r.scanner = .ok true ∧ item.read r = .ok (a, r₁) ∧
        item.repeatWhile more r₁ = .ok (rest, r') := by
  cases hmore : more r.scanner with
  | error e =>
    rw [repeatWhile_of_error hmore] at h
    cases h
  | ok again =>
    cases again with
    | false =>
      rw [repeatWhile_of_end hmore] at h
      cases h
      exact .inl ⟨rfl, rfl, rfl⟩
    | true =>
      rw [repeatWhile_of_more hmore] at h
      obtain ⟨a, r₁, hread, h⟩ := Reader.bind_eq_ok.mp h
      obtain ⟨rest, r₂, hrest, h⟩ := Reader.bind_eq_ok.mp h
      cases h
      exact .inr ⟨a, rest, r₁, rfl, rfl, hread, hrest⟩

/-- What is collected ends where there is no more, or where the next item is refused, or an item is
collected before the others. -/
theorem collect_cases {item : Production α} {more : Scanner → Except SyntaxError Bool}
    {r : Reading} {as : List α} {ending : Except SyntaxError Reading}
    (h : item.collect more r = (as, ending)) :
    (as = [] ∧ ((more r.scanner = .ok false ∧ ending = .ok r) ∨
      ∃ e, ending = .error e ∧
        (more r.scanner = .error e ∨ more r.scanner = .ok true ∧ item.read r = .error e))) ∨
    ∃ a rest r₁, as = a :: rest ∧ more r.scanner = .ok true ∧ item.read r = .ok (a, r₁) ∧
      item.collect more r₁ = (rest, ending) := by
  rw [collect] at h
  split at h
  · rename_i e hmore
    cases h
    exact .inl ⟨rfl, .inr ⟨e, rfl, .inl hmore⟩⟩
  · rename_i hmore
    cases h
    exact .inl ⟨rfl, .inl ⟨hmore, rfl⟩⟩
  · rename_i hmore
    split at h
    · rename_i e hread
      cases h
      exact .inl ⟨rfl, .inr ⟨e, rfl, .inr ⟨hmore, hread⟩⟩⟩
    · rename_i a r₁ hread
      cases h
      exact .inr ⟨a, _, r₁, rfl, hmore, hread, rfl⟩

/-! ## Going forward -/

theorem remaining_collect_le (item : Production α) (more : Scanner → Except SyntaxError Bool)
    (r r' : Reading) (h : (item.collect more r).2 = .ok r') : r'.remaining ≤ r.remaining := by
  fun_induction collect item more r with
  | case1 r e hmore => cases h
  | case2 r hmore =>
    cases h
    exact Nat.le_refl _
  | case3 r hmore e hread => cases h
  | case4 r hmore a r₁ hread hlt items ending heq ih =>
    have := ih (by rw [heq]; exact h)
    omega

theorem forward_repeatWhile (item : Production α) (more : Scanner → Except SyntaxError Bool) :
    (item.repeatWhile more).Forward := by
  intro r items r' h
  unfold repeatWhile at h
  dsimp only at h
  cases hending : (item.collect more r).2 with
  | error e =>
    rw [hending] at h
    cases h
  | ok r₁ =>
    rw [hending] at h
    cases h
    exact remaining_collect_le item more r r' hending

theorem forward_untilClosing (item : Production α) (close : Lexeme)
    (unclosed : Scanner → SyntaxError) : (item.untilClosing close unclosed).Forward :=
  forward_repeatWhile _ _

theorem forward_whileAt (item : Production α) (kind : Lexeme) : (item.whileAt kind).Forward :=
  forward_repeatWhile _ _

theorem advances_parenthesised (item : Production α) : item.parenthesised.Advances :=
  (Reader.Advances.expect (by decide) _).bind fun _ =>
    (item.forward_untilClosing _ _).bind fun _ =>
      Reader.Forward.advance.bind fun _ => Reader.Forward.pure _

end Production

end GraphQLSyntax
