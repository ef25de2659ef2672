import GraphQLSyntax.Lexical.Braced
import GraphQLSyntax.Proofs.Bytewise.Number

/-!
# Strings and object literals that are scanned byte by byte

Inside a literal stand characters of any length, also behind a backslash, which takes only the first
byte of one along.

* `ByteCursor.scanString`: the string literal that starts at the next byte.
* `ByteCursor.scanObject`: the rest of an object literal.
* `ByteCursor.At.scanString`, `ByteCursor.At.scanObject`: both are read like characters.
-/

namespace GraphQLSyntax

namespace ByteCursor

variable {k k' : ByteCursor} {b : Char} {n seen depth : Nat} {kind : Lexeme}

/-- The cursor past the quotes that stand next, and their number, counted on from `n`. -/
def consumeQuotes (n : Nat) (k : ByteCursor) : Nat × ByteCursor :=
  match h : k.peek? with
  | none => (n, k)
  | some b =>
    have := length_left_consumeByte_lt h
    if b = '"' then consumeQuotes (n + 1) k.consumeByte else (n, k)
termination_by k.left.length

/-- The rest of a literal of the given kind. It ends once `n` quotes have gone by in a row, `seen`
of them already. A backslash takes the byte behind it along. -/
def closeQuotes (n seen : Nat) (kind : Lexeme) (k : ByteCursor) : Lexeme × ByteCursor :=
  if n ≤ seen then (kind, k)
  else match h : k.peek? with
    | none => (.unknown, k)
    | some b =>
      have := length_left_consumeByte_lt h
      if b = '"' then closeQuotes n (seen + 1) kind k.consumeByte
      else if b = '\\' then
        have := length_left_consumeByte_le k.consumeByte
        if k.consumeByte.peek? = none then (.unknown, k.consumeByte)
        else closeQuotes n 0 kind k.consumeByte.consumeByte
      else closeQuotes n 0 kind k.consumeByte
termination_by k.left.length

/-- The string literal that starts at the next byte. -/
def scanString (allowBlock : Bool) (k : ByteCursor) : Lexeme × ByteCursor :=
  let (n, k) := consumeQuotes 0 k
  match n with
  | 1 => closeQuotes 1 0 .string k
  | 2 | 6 => (.string, k)
  | 3 => if allowBlock then closeQuotes 3 0 .blockString k else (.unknown, k)
  | _ => (.unknown, k)

theorem consumeQuotes_of_quote {n : Nat} (hpeek : k.peek? = some '"') :
    consumeQuotes n k = consumeQuotes (n + 1) k.consumeByte := by
  rw [consumeQuotes]
  split
  · simp_all
  · simp_all

theorem consumeQuotes_of_not {n : Nat} (hpeek : k.peek? ≠ some '"') :
    consumeQuotes n k = (n, k) := by
  rw [consumeQuotes]
  split
  · rfl
  · simp_all

theorem closeQuotes_of_le (h : n ≤ seen) : closeQuotes n seen kind k = (kind, k) := by
  rw [closeQuotes, if_pos h]

theorem closeQuotes_of_none (h : ¬n ≤ seen) (hpeek : k.peek? = none) :
    closeQuotes n seen kind k = (.unknown, k) := by
  rw [closeQuotes, if_neg h]
  split
  · rfl
  · simp_all

theorem closeQuotes_of_peek (h : ¬n ≤ seen) (hpeek : k.peek? = some b) :
    closeQuotes n seen kind k =
      if b = '"' then closeQuotes n (seen + 1) kind k.consumeByte
      else if b = '\\' then
        if k.consumeByte.peek? = none then (.unknown, k.consumeByte)
        else closeQuotes n 0 kind k.consumeByte.consumeByte
      else closeQuotes n 0 kind k.consumeByte := by
  rw [closeQuotes, if_neg h]
  split
  · simp_all
  · simp_all

theorem length_left_consumeQuotes_le (n : Nat) (k : ByteCursor) :
    (consumeQuotes n k).2.left.length ≤ k.left.length := by
  fun_induction consumeQuotes n k with
  | case1 => exact Nat.le_refl _
  | case2 n k h hlt ih => exact Nat.le_trans ih (Nat.le_of_lt hlt)
  | case3 => exact Nat.le_refl _

theorem length_left_closeQuotes_le (n seen : Nat) (kind : Lexeme) (k : ByteCursor) :
    (closeQuotes n seen kind k).2.left.length ≤ k.left.length := by
  fun_induction closeQuotes n seen kind k with
  | case1 => exact Nat.le_refl _
  | case2 => exact Nat.le_refl _
  | case3 seen k _ h hlt ih => exact Nat.le_trans ih (Nat.le_of_lt hlt)
  | case4 seen k => exact length_left_consumeByte_le k
  | case5 seen k _ h hlt _ _ hle ih => omega
  | case6 seen k _ b h hlt _ _ ih => exact Nat.le_trans ih (Nat.le_of_lt hlt)

/-- A string literal takes its quotes at least. -/
theorem length_left_scanString_lt (allowBlock : Bool) (h : k.peek? = some '"') :
    (k.scanString allowBlock).2.left.length < k.left.length := by
  have hquotes : (consumeQuotes 0 k).2.left.length < k.left.length := by
    rw [consumeQuotes]
    split
    · simp_all
    · rename_i hpeek
      obtain rfl := Option.some.inj (h.symm.trans hpeek)
      exact Nat.lt_of_le_of_lt (length_left_consumeQuotes_le 1 _) (length_left_consumeByte_lt h)
  refine Nat.lt_of_le_of_lt ?_ hquotes
  unfold scanString
  dsimp only
  split
  · exact length_left_closeQuotes_le _ _ _ _
  · exact Nat.le_refl _
  · exact Nat.le_refl _
  · split
    · exact length_left_closeQuotes_le _ _ _ _
    · exact Nat.le_refl _
  · exact Nat.le_refl _

/-- The rest of an object literal, with `depth` braces open inside it. -/
def scanObject (depth : Nat) (k : ByteCursor) : Lexeme × ByteCursor :=
  match h : k.peek? with
  | none => (.unknown, k)
  | some b =>
    have := length_left_consumeByte_lt h
    if hb : b = '"' then
      have := length_left_scanString_lt false (h.trans (congrArg some hb))
      let literal := k.scanString false
      if literal.1 = .unknown then literal else literal.2.scanObject depth
    else if b = '{' then k.consumeByte.scanObject (depth + 1)
    else if b = '}' then
      match depth with
      | 0 => (.object, k.consumeByte)
      | depth + 1 => k.consumeByte.scanObject depth
    else k.consumeByte.scanObject depth
termination_by k.left.length

theorem scanObject_of_none (hpeek : k.peek? = none) : k.scanObject depth = (.unknown, k) := by
  rw [scanObject.eq_def]
  split
  · rfl
  · simp_all

theorem scanObject_of_peek (hpeek : k.peek? = some b) :
    k.scanObject depth =
      if b = '"' then
        if (k.scanString false).1 = .unknown then k.scanString false
        else (k.scanString false).2.scanObject depth
      else if b = '{' then k.consumeByte.scanObject (depth + 1)
      else if b = '}' then
        match depth with
        | 0 => (.object, k.consumeByte)
        | depth + 1 => k.consumeByte.scanObject depth
      else k.consumeByte.scanObject depth := by
  rw [scanObject.eq_def]
  split
  · simp_all
  · rename_i h
    obtain rfl := Option.some.inj (hpeek.symm.trans h)
    by_cases hb : b = '"'
    · rw [dif_pos hb, if_pos hb]
    · rw [dif_neg hb, if_neg hb]

/-! ## Read like characters -/

variable {text : String} {c : Cursor} {d : Char} {cs : List Char}

/-- The quotes that stand next are gone past and counted. -/
theorem At.consumeQuotes (h : k.At text c) (n : Nat) :
    (consumeQuotes n k).1 = n + (Lexical.quotes c.rest).length ∧
      (ByteCursor.consumeQuotes n k).2.At text (c.consume (Lexical.quotes c.rest)) := by
  induction hcs : c.rest generalizing n k c with
  | nil =>
    rw [consumeQuotes_of_not (by simp [h.peek?_eq_none hcs])]
    exact ⟨rfl, h⟩
  | cons d cs ih =>
    have hpeek := h.peek_iff (e := '"') rfl
    rw [hcs, List.head?_cons, Option.some.injEq] at hpeek
    unfold Lexical.quotes
    by_cases hd : d = '"'
    · subst hd
      obtain ⟨hpeek, hnext⟩ := h.byte hcs rfl
      obtain ⟨hlength, hbehind⟩ := ih hnext (n + 1) (Cursor.rest_step_of_cons hcs)
      rw [consumeQuotes_of_quote hpeek, List.takeWhile_cons_of_pos rfl]
      refine ⟨hlength.trans ?_, hbehind⟩
      rw [List.length_cons, Nat.add_right_comm, Nat.add_assoc]
      rfl
    · rw [consumeQuotes_of_not (mt hpeek.mp hd), List.takeWhile_cons_of_neg (by simpa using hd)]
      exact ⟨rfl, h⟩

/-- The rest of a literal of the given kind, and what it takes. -/
def closing (n seen : Nat) (kind : Lexeme) (cs : List Char) : Lexeme × List Char :=
  match Lexical.throughClosing? n seen cs with
  | some body => (kind, body)
  | none => (.unknown, cs)

theorem closedBy_eq (n : Nat) (kind : Lexeme) (opening cs : List Char) :
    Lexical.closedBy n kind opening cs = Lexical.Taken.after opening (closing n 0 kind cs) := by
  unfold Lexical.closedBy closing
  cases Lexical.throughClosing? n 0 cs <;> rfl

theorem closing_of_le (h : n ≤ seen) : closing n seen kind cs = (kind, []) := by
  unfold closing
  cases cs <;> simp [Lexical.throughClosing?.eq_def, h]

theorem closing_nil (h : ¬n ≤ seen) : closing n seen kind [] = (.unknown, []) := by
  simp [closing, Lexical.throughClosing?.eq_def, h]

/-- Behind what keeps a literal open stands the rest of it. -/
theorem closing_of_map {seen' : Nat} (taken : List Char)
    (h : Lexical.throughClosing? n seen (taken ++ cs) =
      (Lexical.throughClosing? n seen' cs).map (taken ++ ·)) :
    closing n seen kind (taken ++ cs) = Lexical.Taken.after taken (closing n seen' kind cs) := by
  unfold closing
  rw [h]
  cases Lexical.throughClosing? n seen' cs <;> rfl

theorem closing_quote (h : ¬n ≤ seen) : closing n seen kind ('"' :: cs) =
    Lexical.Taken.after ['"'] (closing n (seen + 1) kind cs) := by
  refine closing_of_map ['"'] ?_
  simp [Lexical.throughClosing?.eq_def n seen (_ :: _), h]

theorem closing_escape (h : ¬n ≤ seen) : closing n seen kind ('\\' :: d :: cs) =
    Lexical.Taken.after ['\\', d] (closing n 0 kind cs) := by
  refine closing_of_map ['\\', d] ?_
  simp [Lexical.throughClosing?.eq_def n seen (_ :: _), h]

theorem closing_escape_nil (h : ¬n ≤ seen) :
    closing n seen kind ['\\'] = (.unknown, ['\\']) := by
  simp [closing, Lexical.throughClosing?.eq_def, h]

theorem closing_other (h : ¬n ≤ seen) (hquote : d ≠ '"') (hescape : d ≠ '\\') :
    closing n seen kind (d :: cs) = Lexical.Taken.after [d] (closing n 0 kind cs) := by
  refine closing_of_map [d] ?_
  simp [Lexical.throughClosing?.eq_def n seen (_ :: _), h, hquote, hescape]

/-- A byte that is no character of its own is gone past inside a literal. -/
theorem closeQuotes_of_wide (hn : 0 < n) (hpeek : k.peek? = some b) (hb : b.utf8Size ≠ 1) :
    closeQuotes n 0 kind k = closeQuotes n 0 kind k.consumeByte := by
  have hne {e : Char} (he : e.utf8Size = 1) : b ≠ e := Lexical.ne_of_wide hb he
  rw [closeQuotes_of_peek (Nat.not_le_of_lt hn) hpeek, if_neg (hne rfl), if_neg (hne rfl)]

theorem At.closeQuotes (h : k.At text c) (hn : 0 < n) (hcs : c.rest = cs) :
    Reads text c (closeQuotes n seen kind k) (closing n seen kind cs) := by
  have hwide (k : ByteCursor) (b : Char) (hpeek : k.peek? = some b) (hb : b.utf8Size ≠ 1) :
      ByteCursor.closeQuotes n 0 kind k = ByteCursor.closeQuotes n 0 kind k.consumeByte :=
    closeQuotes_of_wide hn hpeek hb
  fun_induction Lexical.throughClosing? n seen cs generalizing k c with
  | case1 seen hle =>
    rw [closeQuotes_of_le hle, closing_of_le hle]
    exact .here _ h
  | case2 seen hle =>
    rw [closeQuotes_of_none hle (h.peek?_eq_none hcs), closing_nil hle]
    exact .here _ h
  | case3 seen d cs hle =>
    rw [closeQuotes_of_le hle, closing_of_le hle]
    exact .here _ h
  | case4 seen cs hle ih =>
    obtain ⟨hpeek, hnext⟩ := h.byte hcs rfl
    rw [closeQuotes_of_peek hle hpeek, if_pos rfl, closing_quote hle]
    exact .after ['"'] (ih hnext (Cursor.rest_step_of_cons hcs))
  | case5 seen hle =>
    obtain ⟨hpeek, hnext⟩ := h.byte hcs rfl
    rw [closeQuotes_of_peek hle hpeek, if_neg (by decide), if_pos rfl,
      if_pos (hnext.peek?_eq_none (Cursor.rest_step_of_cons hcs)), closing_escape_nil hle]
    exact ⟨rfl, hnext⟩
  | case6 seen hle escaped cs _ ih =>
    obtain ⟨hpeek, hnext⟩ := h.byte hcs rfl
    obtain ⟨b, k', hpeek', -, hbehind, heq⟩ := hnext.exists_behind _ (Cursor.rest_step_of_cons hcs) hwide
    rw [closeQuotes_of_peek hle hpeek, if_neg (by decide), if_pos rfl, if_neg (by simp [hpeek']),
      heq, closing_escape hle]
    exact .after ['\\', escaped] (ih hbehind (Cursor.rest_step_of_cons (Cursor.rest_step_of_cons hcs)))
  | case7 seen d cs hle hquote hescape ih =>
    obtain ⟨b, k', hpeek, hb, hbehind, heq⟩ := h.exists_behind _ hcs hwide
    rw [closeQuotes_of_peek hle hpeek, if_neg (mt (hb _ rfl).mp hquote),
      if_neg (mt (hb _ rfl).mp hescape), heq, closing_other hle hquote hescape]
    exact .after [d] (ih hbehind (Cursor.rest_step_of_cons hcs))

/-- A string literal is read like its characters, escaped ones included. -/
theorem At.scanString (h : k.At text c) (allowBlock : Bool) :
    Reads text c (k.scanString allowBlock) (Lexical.quoted allowBlock c.rest) := by
  obtain ⟨hcount, hbehind⟩ := h.consumeQuotes 0
  rw [Nat.zero_add] at hcount
  have hbody : (c.consume (Lexical.quotes c.rest)).rest =
      c.rest.drop (Lexical.quotes c.rest).length := Cursor.rest_consume _ _
  have hclosed (n : Nat) (hn : 0 < n) (kind : Lexeme) :
      Reads text c (ByteCursor.closeQuotes n 0 kind (ByteCursor.consumeQuotes 0 k).2)
        (Lexical.closedBy n kind (Lexical.quotes c.rest)
          (c.rest.drop (Lexical.quotes c.rest).length)) := by
    rw [closedBy_eq]
    exact .after _ (hbehind.closeQuotes hn hbody)
  have hstop (kind : Lexeme) :
      Reads text c (kind, (ByteCursor.consumeQuotes 0 k).2) (kind, Lexical.quotes c.rest) :=
    ⟨rfl, hbehind⟩
  unfold ByteCursor.scanString Lexical.quoted
  dsimp only
  rw [hcount]
  generalize (Lexical.quotes c.rest).length = n at hclosed ⊢
  split
  · exact hclosed 1 (by decide) _
  · exact hstop _
  · exact hstop _
  · cases allowBlock with
    | true => exact hclosed 3 (by decide) _
    | false => exact hstop _
  · simpa using hstop .unknown

/-- A byte that is no character of its own is gone past inside an object literal. -/
theorem scanObject_of_wide (hpeek : k.peek? = some b) (hb : b.utf8Size ≠ 1) :
    scanObject depth k = scanObject depth k.consumeByte := by
  have hne {e : Char} (he : e.utf8Size = 1) : b ≠ e := Lexical.ne_of_wide hb he
  rw [scanObject_of_peek hpeek, if_neg (hne rfl), if_neg (hne rfl), if_neg (hne rfl)]

/-- The rest of an object literal is read like its characters. -/
theorem At.scanObject (h : k.At text c) (hcs : c.rest = cs) :
    Reads text c (k.scanObject depth) (Lexical.braced depth cs) := by
  fun_induction Lexical.braced depth cs generalizing k c with
  | case1 depth =>
    rw [scanObject_of_none (h.peek?_eq_none hcs)]
    exact .here _ h
  | case2 depth rest literal =>
    rename_i hunknown
    have hliteral := h.scanString false
    rw [hcs] at hliteral
    rw [scanObject_of_peek (h.byte hcs rfl).1, if_pos rfl, if_pos (hliteral.1.trans hunknown)]
    exact hliteral
  | case3 depth rest literal hknown =>
    rename_i ih
    have hliteral := h.scanString false
    rw [hcs] at hliteral
    rw [scanObject_of_peek (h.byte hcs rfl).1, if_pos rfl,
      if_neg fun hunknown => hknown (hliteral.1.symm.trans hunknown)]
    exact .after _ (ih hliteral.2 (by rw [Cursor.rest_consume, hcs]))
  | case4 depth rest _ ih =>
    obtain ⟨hpeek, hnext⟩ := h.byte hcs rfl
    rw [scanObject_of_peek hpeek, if_neg (by decide), if_pos rfl]
    exact .after ['{'] (ih hnext (Cursor.rest_step_of_cons hcs))
  | case5 rest =>
    obtain ⟨hpeek, hnext⟩ := h.byte hcs rfl
    rw [scanObject_of_peek hpeek, if_neg (by decide), if_neg (by decide), if_pos rfl]
    exact ⟨rfl, hnext⟩
  | case6 rest _ _ depth ih =>
    obtain ⟨hpeek, hnext⟩ := h.byte hcs rfl
    rw [scanObject_of_peek hpeek, if_neg (by decide), if_neg (by decide), if_pos rfl]
    exact .after ['}'] (ih hnext (Cursor.rest_step_of_cons hcs))
  | case7 depth d rest hquote hopen hclose ih =>
    obtain ⟨b, k', hpeek, hb, hbehind, heq⟩ :=
      h.exists_behind (ByteCursor.scanObject depth) hcs fun _ _ => scanObject_of_wide
    rw [scanObject_of_peek hpeek, if_neg (mt (hb _ rfl).mp hquote), if_neg (mt (hb _ rfl).mp hopen),
      if_neg (mt (hb _ rfl).mp hclose), heq]
    exact .after [d] (ih hbehind (Cursor.rest_step_of_cons hcs))

end ByteCursor

end GraphQLSyntax
