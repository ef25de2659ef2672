import GraphQLSyntax.Scan.Scanner

/-!
# Readers

A reader takes one part of the grammar off the front of a text. It starts at the first lexeme of
that part and ends at the first lexeme behind it; comments between the two are passed over. The
first thing that does not fit ends the reading with its error.

* `Reading`: where a reader stands.
* `Reader.take`, `Reader.expect`, `Reader.whenAt`, `Reader.spanned`: what larger readers are made
  of.
* `Reader.Forward`, `Reader.Advances`: a reader never goes back, and one that advances has less to
  read behind it. `Reader.Forward.bind` and `Reader.Advances.bind` carry both over a sequence.
-/

namespace GraphQLSyntax

/-- Where a reader stands: at the lexeme of `scanner`. What was read before it ends at
`consumedTo`. -/
structure Reading where
  scanner : Scanner
  consumedTo : Position
deriving DecidableEq, Repr, Inhabited

namespace Reading

/-- Where the reading of a text starts. -/
def ofText (text : String) : Reading := ⟨.ofText text, .start⟩

/-- A bound on how many lexemes are left, the current one included. -/
def remaining (r : Reading) : Nat :=
  r.scanner.cursor.rest.length + if r.scanner.lexeme = .eof then 0 else 1

end Reading

/-- Reads a part of the grammar. -/
abbrev Reader := StateT Reading (Except SyntaxError)

namespace Reader

variable {α β : Type}

/-! ## What readers are made of -/

/-- The kind of the current lexeme. -/
def lexeme : Reader Lexeme := fun r => .ok (r.scanner.lexeme, r)

/-- The kind of the current lexeme, where names may be the keywords of executable documents. -/
def keyword : Reader Lexeme := fun r => .ok (r.scanner.keyword .execution, r)

/-- The current lexeme as a token. -/
def token : Reader Token := fun r => .ok (r.scanner.token, r)

/-- Ends with an error about the current lexeme. -/
def fail (error : Scanner → SyntaxError) : Reader α := fun r => .error (error r.scanner)

/-- Ends with the error that the current lexeme is none of `expected`. -/
def failUnexpected (expected : List String) : Reader α := fail fun s => s.unexpected expected

/-- The cursor behind the current lexeme. -/
def cursor : Reader Cursor := fun r => .ok (r.scanner.cursor, r)

/-- Moves the cursor past a text that stands there. The current lexeme stays what it is. -/
def skipText (taken : List Char) : Reader Unit := fun r =>
  .ok ((), { r with scanner.cursor := r.scanner.cursor.consume taken })

/-- Goes to the next lexeme. What is read now ends at `stop`. -/
def advanceAfter (stop : Position) : Reader Unit := fun r =>
  let scanner := r.scanner.advancePastComments
  if scanner.lexeme = .unknown then .error (scanner.error .unreadable)
  else .ok ((), ⟨scanner, stop⟩)

/-- Goes to the next lexeme. -/
def advance : Reader Unit := fun r => advanceAfter r.scanner.cursor.position r

/-- Reads the current lexeme, whatever it is. -/
def take : Reader Token := do
  let token ← token
  advance
  return token

/-- Reads a lexeme of the given kind. -/
def expect (kind : Lexeme) (expected : List String) : Reader Token := do
  if (← lexeme) = kind then take else failUnexpected expected

/-- Reads a name, which stands for `what`. -/
def name (what : String) : Reader Token := expect .name [what]

/-- Reads the name that touches the sigil it follows. -/
def sigilName (sigil : Lexeme) (expected : List String) (what : String) : Reader Token := fun r =>
  if r.scanner.lexeme = sigil then
    let scanner := r.scanner.sigilName
    if scanner.lexeme = .name then take { r with scanner } else .error (scanner.unexpected [what])
  else failUnexpected expected r

/-- Reads a part that starts with a lexeme of the given kind, where there is one. -/
def whenAt (kind : Lexeme) (otherwise : α) (part : Reader α) : Reader α := do
  if (← lexeme) = kind then part else return otherwise

/-- Reads a part that keeps the span it covers. -/
def spanned (part : Reader (Span → α)) : Reader α := fun r => do
  let (build, r') ← part r
  return (build ⟨r.scanner.start, r'.consumedTo⟩, r')

/-- Ends the reading of a whole text. -/
def endOfInput : Reader Unit := do
  if (← lexeme) = .eof then return () else failUnexpected ["end of input"]

/-! ## Sequences -/

theorem bind_apply (p : Reader α) (f : α → Reader β) (r : Reading) :
    (p >>= f) r = (p r).bind fun (a, r') => f a r' := rfl

/-- A sequence succeeds where both parts do. -/
theorem bind_eq_ok {p : Reader α} {f : α → Reader β} {r r'' : Reading} {b : β} :
    (p >>= f) r = .ok (b, r'') ↔ ∃ a r', p r = .ok (a, r') ∧ f a r' = .ok (b, r'') := by
  rw [bind_apply]
  cases p r with
  | error e => simp [Except.bind]
  | ok q =>
    obtain ⟨a, r'⟩ := q
    simp [Except.bind, and_assoc]

/-- A sequence fails where one of its parts does. -/
theorem bind_eq_error {p : Reader α} {f : α → Reader β} {r : Reading} {e : SyntaxError} :
    (p >>= f) r = .error e ↔ p r = .error e ∨ ∃ a r', p r = .ok (a, r') ∧ f a r' = .error e := by
  rw [bind_apply]
  cases p r with
  | error e' => simp [Except.bind]
  | ok q =>
    obtain ⟨a, r'⟩ := q
    simp [Except.bind, and_assoc]

theorem spanned_eq_error {part : Reader (Span → α)} {r : Reading} {e : SyntaxError} :
    spanned part r = .error e ↔ part r = .error e := by
  unfold spanned
  cases part r with
  | error e' => simp [Bind.bind, Except.bind]
  | ok q => simp [Bind.bind, Except.bind, Pure.pure, Except.pure]

theorem pure_apply (a : α) (r : Reading) : (pure a : Reader α) r = .ok (a, r) := rfl

@[simp] theorem lexeme_bind (f : Lexeme → Reader β) (r : Reading) :
    (lexeme >>= f) r = f r.scanner.lexeme r := rfl

@[simp] theorem keyword_bind (f : Lexeme → Reader β) (r : Reading) :
    (keyword >>= f) r = f (r.scanner.keyword .execution) r := rfl

@[simp] theorem token_bind (f : Token → Reader β) (r : Reading) :
    (token >>= f) r = f r.scanner.token r := rfl

@[simp] theorem cursor_bind (f : Cursor → Reader β) (r : Reading) :
    (cursor >>= f) r = f r.scanner.cursor r := rfl

@[simp] theorem fail_apply (error : Scanner → SyntaxError) (r : Reading) :
    (fail error : Reader α) r = .error (error r.scanner) := rfl

/-! ## Going forward -/

/-- Read from `r`, a reader leaves less than there was. -/
def AdvancesFrom (p : Reader α) (r : Reading) : Prop :=
  ∀ a r', p r = .ok (a, r') → r'.remaining < r.remaining

/-- A reader leaves less than there was. -/
def Advances (p : Reader α) : Prop := ∀ r, p.AdvancesFrom r

/-- A reader leaves no more than there was. -/
def Forward (p : Reader α) : Prop := ∀ r a r', p r = .ok (a, r') → r'.remaining ≤ r.remaining

theorem Advances.forward {p : Reader α} (h : p.Advances) : p.Forward :=
  fun r a r' hp => Nat.le_of_lt (h r a r' hp)

theorem AdvancesFrom.bind {p : Reader α} {f : α → Reader β} {r : Reading}
    (hp : p.AdvancesFrom r) (hf : ∀ a, (f a).Forward) : (p >>= f).AdvancesFrom r := by
  intro b r'' h
  obtain ⟨a, r', ha, hb⟩ := bind_eq_ok.mp h
  exact Nat.lt_of_le_of_lt (hf a r' b r'' hb) (hp a r' ha)

theorem AdvancesFrom.lexeme_bind {f : Lexeme → Reader β} {r : Reading}
    (h : (f r.scanner.lexeme).AdvancesFrom r) : (lexeme >>= f).AdvancesFrom r := h

theorem AdvancesFrom.keyword_bind {f : Lexeme → Reader β} {r : Reading}
    (h : (f (r.scanner.keyword .execution)).AdvancesFrom r) : (keyword >>= f).AdvancesFrom r := h

theorem AdvancesFrom.cursor_bind {f : Cursor → Reader β} {r : Reading}
    (h : (f r.scanner.cursor).AdvancesFrom r) : (cursor >>= f).AdvancesFrom r := h

theorem AdvancesFrom.token_bind {f : Token → Reader β} {r : Reading}
    (h : (f r.scanner.token).AdvancesFrom r) : (token >>= f).AdvancesFrom r := h

/-- A sequence advances where its first part does. -/
theorem Advances.bind {p : Reader α} {f : α → Reader β} (hp : p.Advances)
    (hf : ∀ a, (f a).Forward) : (p >>= f).Advances := fun r => (hp r).bind hf

/-- A sequence advances where its second part does. -/
theorem Forward.bind_advances {p : Reader α} {f : α → Reader β} (hp : p.Forward)
    (hf : ∀ a, (f a).Advances) : (p >>= f).Advances := by
  intro r b r'' h
  obtain ⟨a, r', ha, hb⟩ := bind_eq_ok.mp h
  exact Nat.lt_of_lt_of_le (hf a r' b r'' hb) (hp r a r' ha)

theorem Forward.bind {p : Reader α} {f : α → Reader β} (hp : p.Forward)
    (hf : ∀ a, (f a).Forward) : (p >>= f).Forward := by
  intro r b r'' h
  obtain ⟨a, r', ha, hb⟩ := bind_eq_ok.mp h
  exact Nat.le_trans (hf a r' b r'' hb) (hp r a r' ha)

theorem Forward.pure (a : α) : (Pure.pure a : Reader α).Forward := by
  intro r a' r' h
  cases h
  exact Nat.le_refl _

theorem Forward.lexeme : Reader.lexeme.Forward := by
  intro r a r' h
  cases h
  exact Nat.le_refl _

theorem Forward.keyword : Reader.keyword.Forward := by
  intro r a r' h
  cases h
  exact Nat.le_refl _

theorem Forward.token : Reader.token.Forward := by
  intro r a r' h
  cases h
  exact Nat.le_refl _

theorem Forward.cursor : Reader.cursor.Forward := by
  intro r a r' h
  cases h
  exact Nat.le_refl _

theorem Forward.skipText (taken : List Char) : (Reader.skipText taken).Forward := by
  intro r a r' h
  cases h
  unfold Reading.remaining
  simp only [Cursor.rest_consume, List.length_drop]
  omega

/-- A sequence behind a skipped text advances from where it stood before. -/
theorem AdvancesFrom.skipText_bind {taken : List Char} {f : Unit → Reader β} {r : Reading}
    (h : ∀ r', r'.scanner.lexeme = r.scanner.lexeme → (f ()).AdvancesFrom r') :
    (Reader.skipText taken >>= f).AdvancesFrom r := by
  intro b r'' hr
  obtain ⟨u, r', hskip, hr⟩ := bind_eq_ok.mp hr
  have hle := Forward.skipText taken r u r' hskip
  cases hskip
  refine Nat.lt_of_lt_of_le (h _ ?_ b r'' hr) hle
  rfl

/-- What only fails advances. -/
theorem Advances.fail (error : Scanner → SyntaxError) : (fail error : Reader α).Advances := by
  intro r a r' h
  cases h

theorem Advances.failUnexpected (expected : List String) :
    (failUnexpected expected : Reader α).Advances := Advances.fail _

/-- Going on from the end of a lexeme leaves less than there was when the lexeme was current. -/
theorem remaining_advanceAfter_lt {stop : Position} {r r' : Reading} {u : Unit}
    (h : advanceAfter stop r = .ok (u, r')) (heof : r.scanner.lexeme ≠ .eof) :
    r'.remaining < r.remaining := by
  unfold advanceAfter at h
  dsimp only at h
  split at h
  · cases h
  · rename_i hunknown
    cases h
    unfold Reading.remaining
    dsimp only
    by_cases hend : r.scanner.advancePastComments.lexeme = .eof
    · simp [hend, Scanner.rest_advancePastComments_of_eof hend, heof]
    · have := Scanner.length_advancePastComments_lt hend hunknown
      simp only [hend, heof, ↓reduceIte]
      omega

theorem Forward.advanceAfter (stop : Position) : (advanceAfter stop).Forward := by
  intro r u r' h
  by_cases heof : r.scanner.lexeme = .eof
  · unfold Reader.advanceAfter at h
    dsimp only at h
    split at h
    · cases h
    · rename_i hunknown
      cases h
      unfold Reading.remaining
      dsimp only
      by_cases hend : r.scanner.advancePastComments.lexeme = .eof
      · simp [hend, Scanner.rest_advancePastComments_of_eof hend]
      · have := Scanner.length_advancePastComments_lt hend hunknown
        simp only [hend, ↓reduceIte]
        omega
  · exact Nat.le_of_lt (remaining_advanceAfter_lt h heof)

theorem Forward.advance : Reader.advance.Forward :=
  fun r u r' h => Forward.advanceAfter r.scanner.cursor.position r u r' h

theorem AdvancesFrom.advance {r : Reading} (heof : r.scanner.lexeme ≠ .eof) :
    Reader.advance.AdvancesFrom r := fun _ _ h => remaining_advanceAfter_lt h heof

theorem AdvancesFrom.take {r : Reading} (heof : r.scanner.lexeme ≠ .eof) :
    Reader.take.AdvancesFrom r := by
  have h := (AdvancesFrom.advance heof).bind fun _ => Forward.pure r.scanner.token
  exact h

theorem Forward.take : Reader.take.Forward :=
  Forward.token.bind fun _ => Forward.advance.bind fun _ => Forward.pure _

theorem Advances.expect {kind : Lexeme} (hkind : kind ≠ .eof) (expected : List String) :
    (Reader.expect kind expected).Advances := by
  intro r
  refine AdvancesFrom.lexeme_bind ?_
  split
  · rename_i h
    exact AdvancesFrom.take (h ▸ hkind)
  · exact Advances.failUnexpected _ r

theorem Advances.name (what : String) : (Reader.name what).Advances :=
  Advances.expect (by decide) _

theorem Advances.sigilName {sigil : Lexeme} (hsigil : sigil ≠ .eof) (expected : List String)
    (what : String) : (Reader.sigilName sigil expected what).Advances := by
  intro r a r' h
  unfold Reader.sigilName at h
  dsimp only at h
  split at h
  · rename_i hcurrent
    split at h
    · rename_i hname
      have hlt := AdvancesFrom.take (r := { r with scanner := r.scanner.sigilName })
        (by simp [hname]) a r' h
      have hle := Scanner.length_sigilName_le r.scanner
      have hcurrent : r.scanner.lexeme ≠ .eof := hcurrent ▸ hsigil
      unfold Reading.remaining at hlt ⊢
      simp only [hname, hcurrent, reduceCtorEq, ↓reduceIte] at hlt ⊢
      omega
    · cases h
  · exact Advances.failUnexpected _ r a r' h

theorem Forward.whenAt (kind : Lexeme) (otherwise : α) {part : Reader α} (h : part.Forward) :
    (Reader.whenAt kind otherwise part).Forward :=
  Forward.lexeme.bind fun l => by
    split
    · exact h
    · exact Forward.pure _

theorem AdvancesFrom.spanned {part : Reader (Span → α)} {r : Reading} (h : part.AdvancesFrom r) :
    (Reader.spanned part).AdvancesFrom r := by
  intro a r' hr
  unfold Reader.spanned at hr
  cases hpart : part r with
  | error e => simp [hpart, Bind.bind, Except.bind] at hr
  | ok q =>
    simp only [hpart, Bind.bind, Except.bind] at hr
    cases hr
    exact h q.1 q.2 hpart

theorem Advances.spanned {part : Reader (Span → α)} (h : part.Advances) :
    (Reader.spanned part).Advances := fun r => AdvancesFrom.spanned (h r)

end Reader

end GraphQLSyntax
