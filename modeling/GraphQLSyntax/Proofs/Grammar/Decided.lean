import GraphQLSyntax.Proofs.Grammar.Refused
import GraphQLSyntax.Proofs.Scan.Alike

/-!
# What decides an error

Reading stops at the first thing that does not fit. Nothing behind it matters, but for the two
characters that may follow the first dot of a spread.

* `Reader.Mirrors`: in two texts that have their first bytes in common, the same comes of a reader.
* `Reader.Scans.mirrors`: it does, if enough of these bytes are left.
* `SyntaxError.decided`: texts that have the bytes up to an error in common, and three more, are
  refused with the same error.
-/

namespace GraphQLSyntax

variable {n : Nat} {text : String} {t u : Trail}

/-! ## Scanners -/

namespace Scanner.Alike

variable {s s' : Scanner}

theorem same (h : s.Alike n s') : s.SameLexeme s' :=
  ⟨h.lexeme, h.start, h.text, h.cursor.position⟩

/-- A failure at the current lexeme shows the same of both texts. -/
theorem looksLike (h : s.Alike n s') (hholds : s.Holds text)
    (hroom : s.failureSpan.stop.byteOffset + 3 ≤ n) : s.LooksLike s' := by
  have hfailure : s'.failureText = s.failureText ∧ s'.failureSpan = s.failureSpan := by
    unfold failureSpan at hroom
    unfold failureText failureSpan
    rw [h.text, h.start, h.same.span]
    cases htext : s.text with
    | cons c cs => exact ⟨rfl, rfl⟩
    | nil =>
      have hstart := h.cursor.startAlike
      have hagree := h.cursor.agree
      rw [htext] at hroom
      generalize s.cursor.rest = rest at hstart hagree hroom
      generalize s'.cursor.rest = rest' at hstart hagree
      cases hstart with
      | nil => exact ⟨rfl, rfl⟩
      | same => exact ⟨rfl, rfl⟩
      | @wide c d cs ds hc hd =>
        -- All of the character lies before the last bytes in common.
        obtain ⟨k, -, hk, -, hoffset, -⟩ := hholds
        rw [htext, ← hk] at hoffset
        dsimp only [Position.shiftRight] at hroom
        obtain ⟨tail, heq, -⟩ := hagree.cons (by
          rw [Text.byteLength_nil] at hoffset
          omega)
        obtain ⟨rfl, -⟩ := List.cons.inj heq
        exact ⟨rfl, rfl⟩
  exact ⟨h.same, hfailure.1, hfailure.2⟩

/-- The name behind a sigil is the same in both texts. -/
theorem sigilName (h : s.Alike n s') (hroom : s.sigilName.cursor.position.byteOffset + 3 ≤ n) :
    s.sigilName.Alike n s'.sigilName := by
  by_cases hname : (Lexical.classify s.cursor.rest).1 = .name
  · obtain ⟨name, hclassify⟩ := Lexical.exists_eq_name hname
    have htaken := Lexical.classify_isPrefix s.cursor.rest
    rw [hclassify] at htaken
    rw [sigilName_eq hclassify] at hroom ⊢
    obtain ⟨-, hcursor⟩ := h.cursor.consume htaken hroom
    obtain ⟨rest, hrest⟩ := htaken
    rw [Cursor.byteOffset_consume] at hroom
    obtain ⟨rest', hrest', -, hstart⟩ := h.cursor.split hrest.symm hroom
    rw [← hrest] at hclassify
    have hclassify' := Lexical.local_classify _ _ _ _ hclassify (.alike hstart)
    rw [← hrest'] at hclassify'
    rw [sigilName_eq hclassify']
    exact ⟨hcursor, rfl, h.start, rfl⟩
  · have hname' : (Lexical.classify s'.cursor.rest).1 ≠ .name := by
      intro hname'
      obtain ⟨c, cs, hrest, hc⟩ := Lexical.classify_name_iff.mp hname'
      have hhead := h.cursor.startAlike.head_eq (c := c) (by rw [hrest]; rfl) (by
        intro hsize
        rw [Lexical.Continues.isNameStart.narrow c hsize] at hc
        cases hc)
      obtain ⟨cs', hrest'⟩ := List.head?_eq_some_iff.mp hhead
      exact hname (Lexical.classify_name_iff.mpr ⟨c, cs', hrest', hc⟩)
    rw [sigilName_eq_failHere fun heq => hname (classify_of_sigilName heq),
      sigilName_eq_failHere fun heq => hname' (classify_of_sigilName heq)]
    exact failHere s s' h.cursor

theorem spreadTail?_some {t : Scanner} (h : s.Alike n s') (hs : s.spreadTail? = some t)
    (hroom : t.cursor.position.byteOffset + 3 ≤ n) :
    ∃ t', s'.spreadTail? = some t' ∧ t.Alike n t' := by
  obtain ⟨rest, hrest, hdots, rfl⟩ := spreadTail?_eq_some.mp hs
  obtain ⟨-, hcursor⟩ := h.cursor.consume ⟨rest, hrest.symm⟩ hroom
  dsimp only at hroom
  rw [Cursor.byteOffset_consume] at hroom
  have hdotted : s.cursor.rest = ['.', '.'] ++ rest := hrest
  obtain ⟨rest', hrest', -, hstart⟩ := h.cursor.split hdotted hroom
  have hdots' : rest'.head? ≠ some '.' := fun heq => hdots (hstart.head_eq heq (by decide))
  exact ⟨_, spreadTail?_eq_some.mpr ⟨rest', hrest', hdots', rfl⟩,
    hcursor, h.lexeme, h.start, by rw [h.text]⟩

/-- Three bytes behind a dot tell that it is not the first of exactly three. -/
theorem spreadTail?_none (h : s.Alike n s') (hs : s.spreadTail? = none) :
    s'.spreadTail? = none := by
  rw [Option.eq_none_iff_forall_not_mem]
  intro t' ht'
  obtain ⟨rest', hrest', hdots', -⟩ := spreadTail?_eq_some.mp ht'
  have hagree := h.cursor.agree.symm
  have hroom := h.cursor.room
  have hdotted : s'.cursor.rest = ['.', '.'] ++ rest' := hrest'
  rw [hdotted] at hagree
  have htwo : Text.byteLength ['.', '.'] = 2 := rfl
  obtain ⟨rest, hrest, hagree⟩ := hagree.append (by omega)
  by_cases hdots : rest.head? = some '.'
  · obtain ⟨tail, rfl⟩ := List.head?_eq_some_iff.mp hdots
    have hone : '.'.utf8Size = 1 := rfl
    obtain ⟨tail', rfl, -⟩ := hagree.symm.cons (by omega)
    exact hdots' rfl
  · rw [spreadTail?_eq_some.mpr ⟨rest, hrest, hdots, rfl⟩] at hs
    cases hs

end Scanner.Alike

/-! ## How far readers look -/

/-- A trail that goes on does not go back. -/
theorem Trail.byteOffset_le (h : t <+: u) : t.position.byteOffset ≤ u.position.byteOffset := by
  obtain ⟨more, rfl⟩ := h
  show Text.byteLength t.text ≤ Text.byteLength (text (t ++ more))
  rw [text_append, Text.byteLength_append]
  exact Nat.le_add_right _ _

/-- A failure does not end before the cursor. -/
theorem Scanner.Holds.offset_le {s : Scanner} (h : s.Holds text) :
    s.cursor.position.byteOffset ≤ s.failureSpan.stop.byteOffset := by
  obtain ⟨k, -, hstart, -, hoffset, -⟩ := h
  unfold failureSpan
  cases htext : s.text with
  | cons c cs => exact Nat.le_refl _
  | nil =>
    rw [htext, Text.byteLength_nil, Nat.add_zero, ← hstart] at hoffset
    rw [hoffset]
    cases s.cursor.rest with
    | nil => exact Nat.le_refl _
    | cons c cs => exact Nat.le_add_right _ _

namespace Reader

variable {α β : Type} {r r' : Reading}

/-- The offset up to which a reader has looked. -/
def reach : Except SyntaxError (α × Reading) → Nat
  | .ok (_, r) => r.scanner.cursor.position.byteOffset
  | .error e => e.span.stop.byteOffset

theorem Leads.offset_le {x : Except SyntaxError (α × Reading)} (h : Leads text t x) :
    t.position.byteOffset ≤ reach x := by
  cases x with
  | error e =>
    obtain ⟨u, s, htu, hs, hholds, he⟩ := h
    have hle := hholds.offset_le
    rw [hs.tracked.position_eq, ← he.span] at hle
    exact Nat.le_trans (Trail.byteOffset_le htu) hle
  | ok q =>
    obtain ⟨u, htu, hu⟩ := h
    show _ ≤ q.2.scanner.cursor.position.byteOffset
    rw [hu.scanner.tracked.position_eq]
    exact Trail.byteOffset_le htu

end Reader

/-! ## Readers -/

/-- Two readings stand at the same lexeme of texts that have the same first `n` bytes. -/
structure Reading.Alike (n : Nat) (r r' : Reading) : Prop where
  scanner : r.scanner.Alike n r'.scanner
  consumedTo : r'.consumedTo = r.consumedTo

/-- The same comes of a reader in two texts that have the same first `n` bytes, if it has not looked
further than three bytes before the last of these. -/
def Reader.Mirrors {α : Type} (n : Nat) (x x' : Except SyntaxError (α × Reading)) : Prop :=
  reach x + 3 ≤ n → match x with
    | .ok (a, r) => ∃ r', x' = .ok (a, r') ∧ r.Alike n r'
    | .error e => e.cause ≠ .invalidSyntax → x' = .error e

namespace Reader

variable {α β : Type} {r r' : Reading}

/-- Looking at the current lexeme leaves a reading where it is. -/
theorem eq_of_peek {see : Scanner → Except SyntaxError α} {a : α}
    (h : Reader.peek see r = .ok (a, r')) : r' = r := by
  unfold Reader.peek at h
  cases hs : see r.scanner with
  | error e =>
    rw [hs] at h
    cases h
  | ok b =>
    rw [hs] at h
    cases h
    rfl

namespace Mirrors

theorem pure {a : α} (h : r.Alike n r') :
    Mirrors n ((Pure.pure a : Reader α) r) ((Pure.pure a : Reader α) r') := fun _ => ⟨r', rfl, h⟩

/-- Readers in a row look no less far than the first of them. -/
theorem bind {p : Reader α} {f : α → Reader β} (hp : Mirrors n (p r) (p r'))
    (hreach : ∀ a q, p r = .ok (a, q) → q.scanner.cursor.position.byteOffset ≤ reach (f a q))
    (hf : ∀ a q q', p r = .ok (a, q) → q.Alike n q' → Mirrors n (f a q) (f a q')) :
    Mirrors n ((p >>= f) r) ((p >>= f) r') := by
  intro hroom
  rw [bind_apply] at hroom ⊢
  rw [bind_apply]
  cases hq : p r with
  | error e =>
    rw [hq] at hp hroom
    intro hcause
    rw [hp hroom hcause]
    rfl
  | ok q =>
    obtain ⟨a, q⟩ := q
    rw [hq] at hp hroom
    have hroom : reach (f a q) + 3 ≤ n := hroom
    have hle := hreach a q hq
    obtain ⟨q', hq', hlike⟩ := hp (by
      show q.scanner.cursor.position.byteOffset + 3 ≤ n
      omega)
    rw [hq']
    exact hf a q q' hq hlike hroom

/-- An error about the current lexeme is the same in both texts. -/
theorem refused {s s' : Scanner} {e : SyntaxError} {x' : Except SyntaxError (α × Reading)}
    (h : s.Alike n s') (hholds : s.Holds text) (he : s.Refuses e)
    (hsame : s.LooksLike s' → x' = .error e) : Mirrors n (.error e) x' := by
  intro hroom _
  have hroom : e.span.stop.byteOffset + 3 ≤ n := hroom
  rw [he.span] at hroom
  exact hsame (h.looksLike hholds hroom)

theorem fail {error : Scanner → SyntaxError} (h : r.Alike n r') (hholds : r.scanner.Holds text)
    (he : r.scanner.Refuses (error r.scanner))
    (hsame : ∀ s s', s.LooksLike s' → error s' = error s) :
    Mirrors n ((Reader.fail error : Reader α) r) ((Reader.fail error : Reader α) r') :=
  refused h.scanner hholds he fun hlooks => congrArg Except.error (hsame _ _ hlooks)

theorem failUnexpected (h : r.Alike n r') (hholds : r.scanner.Holds text)
    (expected : List String) : Mirrors n ((Reader.failUnexpected expected : Reader α) r)
      ((Reader.failUnexpected expected : Reader α) r') :=
  fail h hholds (.unexpected expected) fun _ _ hlooks => hlooks.unexpected expected

theorem sees {P : Scanner → Prop} {see : Scanner → Except SyntaxError β} {e : SyntaxError}
    (h : r.Alike n r') (hr : r.Reached text t) (hsee : Scanner.Sees P see) (hP : P r.scanner)
    (he : see r.scanner = .error e) {x' : Except SyntaxError (α × Reading)}
    (hx' : see r'.scanner = .error e → x' = .error e) : Mirrors n (.error e) x' := by
  obtain ⟨k, hk, hscanner⟩ := hr.lexeme
  refine refused h.scanner (hscanner ▸ Scanner.holds_ofCursor hk) ?_ fun hlooks =>
    hx' (hsee.sameError _ _ e hlooks he)
  rw [hscanner] at hP he ⊢
  exact hsee.refuses k e hP he

theorem peek {P : Scanner → Prop} {see : Scanner → Except SyntaxError α} (h : r.Alike n r')
    (hr : r.Reached text t) (hsee : Scanner.Sees P see) (hP : P r.scanner) :
    Mirrors n (Reader.peek see r) (Reader.peek see r') := by
  unfold Reader.peek
  cases hs : see r.scanner with
  | error e =>
    refine sees h hr hsee hP hs fun he => ?_
    rw [he]
    rfl
  | ok a =>
    rw [hsee.same _ _ a h.scanner.same hs]
    exact pure h

/-- The next lexeme is the same in both texts, or refused in both. -/
theorem advanceAfter (r r' : Reading) {stop stop' : Position} (hstop : stop' = stop)
    (h : r.scanner.cursor.Alike n r'.scanner.cursor) (hr : r.scanner.cursor.Reaches text) :
    Mirrors n (Reader.advanceAfter stop r) (Reader.advanceAfter stop' r') := by
  subst hstop
  have hholds := Scanner.holds_ofCursor hr.skipTrivia
  have hnext (hroom : (Scanner.ofCursor r.scanner.cursor.skipTrivia).cursor.position.byteOffset +
      3 ≤ n) : (Scanner.ofCursor r.scanner.cursor.skipTrivia).Alike n
        (.ofCursor r'.scanner.cursor.skipTrivia) := by
    have hle := r.scanner.cursor.skipTrivia.byteOffset_le_ofCursor
    exact (h.skipTrivia (by omega)).ofCursor hroom
  unfold Reader.advanceAfter
  rw [Scanner.advancePastComments_eq, Scanner.advancePastComments_eq]
  dsimp only
  split
  · rename_i hunknown
    intro hroom
    have hle := hholds.offset_le
    have hlike := hnext (Nat.le_trans (Nat.add_le_add_right hle 3) hroom)
    rw [if_pos (hlike.lexeme.trans hunknown)]
    exact refused hlike hholds (.error (by rintro _ _ ⟨⟩) (by rintro _ ⟨⟩))
      (fun hlooks => congrArg Except.error (hlooks.error _)) hroom
  · rename_i hknown
    intro hroom
    have hlike := hnext hroom
    rw [if_neg (by rwa [hlike.lexeme])]
    exact ⟨_, rfl, hlike, rfl⟩

theorem advance (r r' : Reading) (h : r.scanner.cursor.Alike n r'.scanner.cursor)
    (hr : r.scanner.cursor.Reaches text) :
    Mirrors n (Reader.advance r) (Reader.advance r') := advanceAfter r r' h.position h hr

theorem take (r r' : Reading) (h : r.scanner.Alike n r'.scanner)
    (hr : r.scanner.cursor.Reaches text) :
    Mirrors n (Reader.take r) (Reader.take r') := by
  unfold Reader.take
  rw [token_bind, token_bind, h.same.token]
  exact (advance r r' h.cursor hr).bind (fun _ _ _ => Nat.le_refl _) fun _ _ _ _ hlike => pure hlike

/-- What leads on from a scanner has looked no less far than the scanner. -/
theorem of_leads {s : Scanner} {x x' : Except SyntaxError (α × Reading)}
    (hs : Scanner.Reached text u s) (hx : Leads text u x)
    (h : s.cursor.position.byteOffset + 3 ≤ n → Mirrors n x x') : Mirrors n x x' := by
  intro hroom
  have hle := hx.offset_le
  rw [← hs.tracked.position_eq] at hle
  exact h (Nat.le_trans (Nat.add_le_add_right hle 3) hroom) hroom

theorem spanned {part : Reader (Span → α)} (h : r.Alike n r')
    (hpart : Mirrors n (part r) (part r')) :
    Mirrors n (Reader.spanned part r) (Reader.spanned part r') := by
  intro hroom
  unfold Reader.spanned at hroom ⊢
  rw [h.scanner.start]
  cases hq : part r with
  | error e =>
    rw [hq] at hpart hroom
    intro hcause
    rw [hpart hroom hcause]
    rfl
  | ok q =>
    rw [hq] at hpart hroom
    obtain ⟨q', hq', hlike⟩ := hpart hroom
    rw [hq']
    refine ⟨q', ?_, hlike⟩
    rw [← hlike.consumedTo]
    rfl

theorem sigilName (h : r.Alike n r') (hr : r.Reached text t) (sigil : Lexeme)
    (expected : List String) (what : String) :
    Mirrors n (Reader.sigilName sigil expected what r)
      (Reader.sigilName sigil expected what r') := by
  unfold Reader.sigilName
  rw [h.scanner.lexeme]
  split
  · have hname := hr.scanner.sigilName
    dsimp only
    split
    · rename_i hlexeme
      refine of_leads hname (.take (r := { r with scanner := _ }) hname) fun hroom => ?_
      have hlike := h.scanner.sigilName hroom
      rw [if_pos (hlike.lexeme.trans hlexeme)]
      exact take { r with scanner := _ } { r' with scanner := _ } hlike
        hname.tracked.reaches
    · rename_i hlexeme
      have hholds : r.scanner.sigilName.Holds text := by
        rw [Scanner.sigilName_eq_failHere hlexeme]
        exact Scanner.holds_failHere hr.scanner.tracked.reaches
      refine of_leads hname (.refused hname hholds (.unexpected _)) fun hroom => ?_
      have hlike := h.scanner.sigilName hroom
      rw [if_neg (by rwa [hlike.lexeme])]
      exact refused hlike hholds (.unexpected _) fun hlooks =>
        congrArg Except.error (hlooks.unexpected _)
  · exact failUnexpected h hr.holds expected

theorem spreadDots (h : r.Alike n r') (hr : r.Reached text t) :
    Mirrors n (Reader.spreadDots r) (Reader.spreadDots r') := by
  unfold Reader.spreadDots
  rw [h.scanner.lexeme]
  split
  · cases hs : r.scanner.spreadTail? with
    | none =>
      rw [h.scanner.spreadTail?_none hs]
      exact failUnexpected h hr.holds _
    | some s =>
      have hspread := hr.scanner.spreadTail hs
      refine of_leads hspread (.advance (r := { r with scanner := s }) hspread) fun hroom => ?_
      obtain ⟨s', hs', hlike⟩ := h.scanner.spreadTail?_some hs hroom
      rw [hs']
      exact advance { r with scanner := s } { r' with scanner := s' } hlike.cursor
        hspread.tracked.reaches
  · exact failUnexpected h hr.holds _

theorem object (h : r.Alike n r') (hr : r.Reached text t) :
    Mirrors n (Reader.object r) (Reader.object r') := by
  have hobject := hr.scanner.objectLiteral
  unfold Reader.object
  rw [h.scanner.same.span]
  dsimp only
  split
  · rename_i hunknown
    have hholds := Scanner.holds_objectLiteral hr.holds (by rw [hunknown]; decide)
    have hrefuses := Scanner.refuses_object r.scanner.objectLiteral
      (.pointing "object literal opened here" r.scanner.span)
    refine of_leads hobject (.refused hobject hholds hrefuses) fun hroom => ?_
    have hlike := h.scanner.objectLiteral hroom
    rw [if_pos (hlike.lexeme.trans hunknown)]
    refine refused hlike hholds hrefuses fun hlooks => ?_
    rw [hlooks.error, if_congr hlike.cursor.rest_eq_nil_iff rfl rfl]
  · rename_i hknown
    refine of_leads hobject ((Leads.take (r := { r with scanner := _ }) hobject).bind
      fun _ _ _ _ hu => .pure hu) fun hroom => ?_
    have hlike := h.scanner.objectLiteral hroom
    rw [if_neg (by rwa [hlike.lexeme])]
    exact (take { r with scanner := _ } { r' with scanner := _ } hlike
      hobject.tracked.reaches).bind (fun _ _ _ => Nat.le_refl _) fun _ _ _ _ hq => pure hq

theorem openings (h : r.Alike n r') (hr : r.Reached text t) :
    Mirrors n (Reader.openings r) (Reader.openings r') := by
  have hbytes := hr.scanner.openings
  unfold Reader.openings
  rw [lexeme_bind, lexeme_bind, h.scanner.lexeme]
  split
  · rw [cursor_bind, cursor_bind]
    split
    · -- Too many brackets are counted before it is known what follows them.
      exact fun _ hcause => absurd rfl hcause
    · rename_i hdeep
      refine of_leads hbytes ((Leads.advance (r := { r with scanner.cursor := _ }) hbytes).bind
        fun _ _ _ _ hu => .pure hu) fun hroom => ?_
      obtain ⟨hopenings, hcursor⟩ := h.scanner.cursor.openings hroom
      rw [hopenings, if_neg hdeep, skipText_bind, skipText_bind]
      exact (advance { r with scanner.cursor := _ } { r' with scanner.cursor := _ }
        hcursor hbytes.tracked.reaches).bind (fun _ _ _ => Nat.le_refl _) fun _ _ _ _ hq => pure hq
  · exact pure h

theorem closings (h : r.Alike n r') (hr : r.Reached text t) (lists : Nat) (opener : Span) :
    Mirrors n (Reader.closings lists opener r) (Reader.closings lists opener r') := by
  have hbytes := hr.scanner.closings lists
  refine of_leads hbytes (Leads.closings hr lists opener) fun hroom => ?_
  obtain ⟨hclosings, hcursor⟩ := h.scanner.cursor.closings hroom
  unfold Reader.closings
  rw [cursor_bind, cursor_bind, hclosings, skipText_bind, skipText_bind, cursor_bind, cursor_bind]
  have hlike := Scanner.Alike.failHere { r.scanner with cursor := _ }
    { r'.scanner with cursor := _ } hcursor
  have hholds := Scanner.holds_failHere hbytes.tracked.reaches
  split
  · rename_i hclose
    rw [if_pos ((hcursor.head_iff (by decide)).mpr hclose)]
    exact refused hlike hholds (Scanner.refuses_closing hclose) fun hlooks =>
      congrArg Except.error (hlooks.error _)
  · rename_i hclose
    rw [if_neg fun hhead => hclose ((hcursor.head_iff (by decide)).mp hhead)]
    split
    · exact refused hlike hholds (.unclosed _ _ _) fun hlooks =>
        congrArg Except.error (hlooks.unclosed _ _ _)
    · rw [h.scanner.cursor.position_consume]
      exact (advanceAfter { r with scanner.cursor := _ } { r' with scanner.cursor := _ } rfl
        hcursor hbytes.tracked.reaches).bind
          (fun _ _ _ => Nat.le_refl _) fun _ _ _ _ hq => pure hq

/-- Readers in a row, each of which leads on. -/
theorem sequence {p : Reader α} {f : α → Reader β} (hp : Mirrors n (p r) (p r'))
    (hpleads : Leads text t (p r))
    (hfleads : ∀ a q u, p r = .ok (a, q) → q.Reached text u → Leads text u (f a q))
    (hf : ∀ a q q' u, p r = .ok (a, q) → q.Reached text u → q.Alike n q' →
      Mirrors n (f a q) (f a q')) :
    Mirrors n ((p >>= f) r) ((p >>= f) r') := by
  have hreached : ∀ a q, p r = .ok (a, q) → ∃ u, q.Reached text u := by
    intro a q hq
    rw [hq] at hpleads
    obtain ⟨u, -, hu⟩ := hpleads
    exact ⟨u, hu⟩
  refine hp.bind (fun a q hq => ?_) fun a q q' hq hlike => ?_
  · obtain ⟨u, hu⟩ := hreached a q hq
    rw [hu.scanner.tracked.position_eq]
    exact (hfleads a q u hq hu).offset_le
  · obtain ⟨u, hu⟩ := hreached a q hq
    exact hf a q q' u hq hu hlike

theorem repeatWhile {item : Production α} {more : Scanner → Except SyntaxError Bool}
    (h : r.Alike n r') (hr : r.Reached text t) (hmore : Scanner.Sees (fun _ => True) more)
    (hleads : ∀ (t : Trail) (r : Reading), r.Reached text t → Leads text t (item.read r))
    (hitem : ∀ (t : Trail) (r r' : Reading), r.Reached text t → r.Alike n r' →
      Mirrors n (item.read r) (item.read r')) :
    Mirrors n (item.repeatWhile more r) (item.repeatWhile more r') := by
  induction hleft : r.remaining using Nat.strongRecOn generalizing t r r' with
  | ind left ih =>
    have hmoreLeads {t : Trail} {r : Reading} (hr : r.Reached text t) (a : α) :
        Leads text t ((item.repeatWhile more >>= fun as => Pure.pure (a :: as)) r) :=
      (Leads.repeatWhile hr hmore hleads).bind fun _ _ _ _ hu => .pure hu
    rw [Production.repeatWhile_eq, Production.repeatWhile_eq]
    refine (peek h hr hmore trivial).sequence (.peek hr hmore trivial) ?_ ?_
    · intro again q u hq hu
      split
      · exact (hleads u q hu).bind fun a _ _ _ hu => hmoreLeads hu a
      · exact .pure hu
    · intro again q q' u hq hu hlike
      obtain rfl : q = r := Reader.eq_of_peek hq
      split
      · refine (hitem u q q' hu hlike).sequence (hleads u q hu)
          (fun a _ _ _ hu => hmoreLeads hu a) fun a q₁ q₁' u₁ hq₁ hu₁ hlike₁ => ?_
        have hlt := item.advances q a q₁ hq₁
        rw [hleft] at hlt
        exact (ih _ hlt hlike₁ hu₁ rfl).bind (fun _ _ _ => Nat.le_refl _)
          fun _ _ _ _ hq => pure hq
      · exact pure hlike

end Mirrors

/-- **The same comes of a reader in texts that have the same first bytes**, if it has not looked
further than these allow. -/
theorem Scans.mirrors {p : Reader α} {P : Scanner → Prop} (h : p.Scans P) (hr : r.Reached text t)
    (hP : P r.scanner) (hlike : r.Alike n r') : Mirrors n (p r) (p r') := by
  induction h generalizing t r r' with
  | pure a => exact .pure hlike
  | peek hsee => exact .peek hlike hr hsee hP
  | @peekBind _ _ _ see _ hsee _ ih =>
    rw [bind_apply, bind_apply, Reader.peek]
    cases hs : see r.scanner with
    | error e => exact .sees hlike hr hsee hP hs fun he => by rw [Reader.peek, he]; rfl
    | ok a =>
      rw [Reader.peek, hsee.same _ _ a hlike.scanner.same hs]
      exact ih a hr ⟨hP, hs⟩ hlike
  | bind hp hf ihp ihf =>
    exact (ihp hr hP hlike).sequence (hp.leads hr hP) (fun a _ _ _ hu => (hf a).leads hu trivial)
      fun a _ _ _ _ hu hlike => ihf a hu trivial hlike
  | advance => exact .advance _ _ hlike.scanner.cursor hr.scanner.tracked.reaches
  | spanned _ ih => exact .spanned hlike (ih hr hP hlike)
  | repeatWhile hmore hitem ih =>
    exact .repeatWhile hlike hr hmore (fun _ _ hr => hitem.leads hr trivial)
      fun _ _ _ hr hlike => ih hr trivial hlike
  | sigilName sigil expected what => exact .sigilName hlike hr sigil expected what
  | spreadDots => exact .spreadDots hlike hr
  | object => exact .object hlike hr
  | openings => exact .openings hlike hr
  | closings lists opener => exact .closings hlike hr lists opener

end Reader

/-! ## Errors -/

namespace SyntaxError

variable {text' : String} {e : SyntaxError}

/-- What is read from the start of a text on mirrors what is read of the other. -/
theorem mirrors_of_start {α : Type} {p : Reader α} (h : p.Scans fun _ => True)
    (hagree : Text.Agree n text.toList text'.toList) (hn : 3 ≤ n) :
    Reader.Mirrors n ((Reader.advance >>= fun _ => p) (.ofText text))
      ((Reader.advance >>= fun _ => p) (.ofText text')) := by
  have hlike := Scanner.alike_ofText hagree hn
  exact (Reader.Mirrors.advance _ _ hlike.cursor (Cursor.reaches_ofText text)).sequence
    (Reader.Leads.advance .start) (fun _ _ _ _ hu => h.leads hu trivial)
      fun _ _ _ _ _ hu hlike => h.mirrors hu trivial hlike

/-- **The first violation alone decides the error.** A text that is refused is refused with the same
error whatever follows the offending text, but for the next three bytes. -/
theorem decided (hcause : e.cause ≠ .invalidSyntax)
    (hagree : (Text.bytes text.toList).take (e.span.stop.byteOffset + 3) =
      (Text.bytes text'.toList).take (e.span.stop.byteOffset + 3)) :
    (Document.parse text = .error e → Document.parse text' = .error e) ∧
      (TypeRef.parse text = .error e → TypeRef.parse text' = .error e) ∧
      (Value.parse text = .error e → Value.parse text' = .error e) := by
  have hread {α β : Type} {p : Reader α} {f : α × Reading → β} (hp : p.Scans fun _ => True)
      (he : ((Reader.advance >>= fun _ => p) (.ofText text)).map f = .error e) :
      ((Reader.advance >>= fun _ => p) (.ofText text')).map f = .error e := by
    have hmirrors := mirrors_of_start hp hagree (Nat.le_add_left 3 _)
    cases hr : (Reader.advance >>= fun _ => p) (.ofText text) with
    | error e' =>
      rw [hr] at he hmirrors
      cases he
      rw [hmirrors (Nat.le_refl _) hcause]
      rfl
    | ok q =>
      rw [hr] at he
      cases he
  refine ⟨fun h => ?_, fun h => ?_, fun h => ?_⟩
  · rw [Document.parse_eq] at h ⊢
    exact hread Reader.scans_definitions h
  · exact hread (Reader.scans_toEnd Reader.scans_typeRef) h
  · exact hread (Reader.scans_toEnd Reader.scans_value) h

/-- A fourth dot decides that the first is refused. -/
theorem decided_dots : ∃ text text' e, text = "\x7b .... b \x7d" ∧ text' = "\x7b ....\"" ∧
    e = (SyntaxError.unexpected "." ⟨⟨1, 3, 2⟩, ⟨1, 4, 3⟩⟩
      (.unexpectedToken ["..."] ".")).withNote (.general "expected ...") ∧
    Document.parse text = .error e ∧ e.cause ≠ .invalidSyntax ∧
    (Text.bytes text.toList).take 6 = (Text.bytes text'.toList).take 6 ∧
    Document.parse text' = .error e := by
  have herror : (Document.parse "\x7b .... b \x7d").map (fun _ => ()) =
      .error ((SyntaxError.unexpected "." ⟨⟨1, 3, 2⟩, ⟨1, 4, 3⟩⟩
        (.unexpectedToken ["..."] ".")).withNote (.general "expected ...")) := by
    decide +kernel
  have hagree : (Text.bytes "\x7b .... b \x7d".toList).take 6 =
      (Text.bytes "\x7b ....\"".toList).take 6 := by
    decide +kernel
  cases hparse : Document.parse "\x7b .... b \x7d" with
  | ok d =>
    rw [hparse] at herror
    cases herror
  | error e =>
    rw [hparse] at herror
    obtain rfl := Except.error.inj herror
    have hcause : Cause.unexpectedToken ["..."] "." ≠ .invalidSyntax := by rintro ⟨⟩
    exact ⟨_, _, _, rfl, rfl, rfl, hparse, hcause, hagree, (decided hcause hagree).1 hparse⟩

end SyntaxError

end GraphQLSyntax
