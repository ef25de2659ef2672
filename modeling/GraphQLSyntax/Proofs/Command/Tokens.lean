import GraphQLSyntax.Command.Tokens
import GraphQLSyntax.Proofs.Command.Parse
import GraphQLSyntax.Proofs.Grammar.Diagnostic
import GraphQLSyntax.Proofs.Text.OneLine
import GraphQLSyntax.Proofs.Text.Pieces

/-!
# The listing of the tokens of a file

* `Token.ShownBy`: what a line shows of a token. `Token.lineFeed_notMem_listing`: that is one line,
  whatever line breaks the text of the token has.
* `Outcome.printedLines`: the lines that a command printed.
* `Scanner.stopped`: the scanner at the last lexeme of a text.
* `Command.listTokensOf_eq`: what the command prints, and with what it ends.
* `Command.listTokens_lines`: it lists the tokens line by line, and its end tells how the scan
  ended.
-/

namespace GraphQLSyntax

open Text

/-! ## Lines of tokens -/

theorem Text.OneLine.label (kind : Lexeme) : OneLine kind.label := by
  cases kind <;> decide

namespace Token

/-- A line shows where a token starts, its kind, and its text with everything escaped that does not
show as itself. There are blanks around the place and the kind. -/
def ShownBy (t : Token) (line : String) : Prop :=
  ∃ before behind between, line = Layout.blanks before ++ toString t.span.start.line ++ ":" ++
    toString t.span.start.column ++ Layout.blanks (behind + 1) ++ t.lexeme.label ++
    Layout.blanks (between + 1) ++ quoted t.text

theorem shownBy_listing (t : Token) : t.ShownBy t.listing := by
  have hblank (n : Nat) : Layout.blanks (n + 1) = Layout.blanks n ++ " " := by
    rw [Layout.blanks, List.replicate_succ', String.ofList_append]
    rfl
  refine ⟨4 - (toString t.span.start.line).length, 4 - (toString t.span.start.column).length,
    18 - t.lexeme.label.length, ?_⟩
  rw [listing, Layout.rightAligned, Layout.leftAligned, Layout.leftAligned, hblank, hblank]
  simp only [String.append_assoc]

theorem oneLine_listing (t : Token) : OneLine t.listing := by
  obtain ⟨_, _, _, h⟩ := t.shownBy_listing
  rw [h]
  exact (((((((OneLine.blanks _).append (.ofNat _)).append (by decide)).append (.ofNat _)).append
    (.blanks _)).append (.label _)).append (.blanks _)).append (.quoted _)

/-- A line ends with the quote behind the text of the token. -/
theorem listing_quote (t : Token) : ∃ front, t.listing.toList = front ++ ['"'] := by
  rw [listing, quoted, String.toList_append, String.toList_ofList, ← List.append_assoc]
  exact ⟨_, rfl⟩

end Token

/-! ## Printed lines -/

namespace Outcome

/-- The lines of what a command printed, but for an empty one at the end. -/
def printedLines (o : Outcome) : List String :=
  match o.stdout with
  | none => []
  | some text =>
    let lines := pieces '\n' text
    if lines.getLast? = some "" then lines.dropLast else lines

variable {lines : List String}

/-- A command that succeeds with lines prints these lines. -/
theorem printedLines_succeeded (hne : lines ≠ []) (h : ∀ line ∈ lines, '\n' ∉ line.toList)
    (hlast : lines.getLast? ≠ some "") (log : List LogLine) :
    (succeeded ("\n".intercalate lines) log).printedLines = lines := by
  have hpieces : pieces '\n' ("\n".intercalate lines) = lines := pieces_intercalate hne h
  rw [printedLines, stdout_succeeded]
  dsimp only
  rw [hpieces, if_neg hlast]

/-- A command that fails behind some lines has printed these lines. -/
theorem printedLines_failed (h : ∀ line ∈ lines, '\n' ∉ line.toList) (stderr : String)
    (log : List LogLine) :
    (failed (String.join (lines.map (· ++ "\n"))) stderr log).printedLines = lines := by
  rw [printedLines, stdout_failed]
  split
  · rename_i hnone
    cases lines with
    | nil => rfl
    | cons line lines =>
      have hne : String.join ((line :: lines).map (· ++ "\n")) ≠ "" := by
        simp [String.join_cons]
      rw [if_neg hne] at hnone
      cases hnone
  · rename_i text htext
    obtain rfl : String.join (lines.map (· ++ "\n")) = text := by
      split at htext
      · cases htext
      · exact Option.some.inj htext
    rw [pieces_join h]
    simp

end Outcome

/-! ## Where a scan stops -/

namespace Scanner

/-- The scanner at the last lexeme of a text: at the end of input, or at the first text that fits no
kind. -/
def stopped (text : String) : Scanner := advance^[(Token.listOfText text).length] (.ofText text)

/-- The last token of a stream is what the scanner shows that has come as far. -/
theorem getLast?_toList (s : Scanner) :
    let tokens := (⟨s, false⟩ : TokenStream).toList
    tokens.getLast? = some (advance^[tokens.length] s).shown ∧
      (advance^[tokens.length] s).lexeme.isControl := by
  induction s using scan_induction with
  | step s ih =>
    rw [TokenStream.toList_unfinished]
    cases h : s.advance.lexeme.isControl with
    | true =>
      rw [TokenStream.toList_finished]
      exact ⟨rfl, h⟩
    | false =>
      obtain ⟨hlast, hcontrol⟩ := ih h
      refine ⟨?_, hcontrol⟩
      rw [List.getLast?_cons, hlast]
      rfl

theorem reached_advance_iterate (text : String) (n : Nat) :
    ∃ t : Trail, Reached text t (advance^[n] (ofText text)) := by
  induction n with
  | zero => exact ⟨[], .start⟩
  | succ n ih =>
    obtain ⟨t, ht⟩ := ih
    rw [Function.iterate_succ_apply']
    exact ⟨_, ht.advance⟩

variable {text : String}

theorem getLast?_listOfText (text : String) :
    (Token.listOfText text).getLast? = some (stopped text).shown :=
  (getLast?_toList (.ofText text)).1

theorem stopped_eof_or_unknown (text : String) :
    (stopped text).lexeme = .eof ∨ (stopped text).lexeme = .unknown := by
  have hcontrol : (stopped text).lexeme.isControl = true := (getLast?_toList (.ofText text)).2
  by_contra hnot
  rw [Lexeme.isControl_eq_false_iff.mpr (not_or.mp hnot)] at hcontrol
  cases hcontrol

/-- Where a scan stops, its last step has come to a lexeme. -/
theorem stopped_eq_advance (text : String) :
    ∃ n, stopped text = (advance^[n] (ofText text)).advance := by
  have hlength : (Token.listOfText text).length ≠ 0 := by
    rw [Token.listOfText, TokenStream.ofText, TokenStream.toList_unfinished]
    exact Nat.succ_ne_zero _
  obtain ⟨n, hn⟩ := Nat.exists_eq_succ_of_ne_zero hlength
  exact ⟨n, by rw [stopped, hn, Function.iterate_succ_apply']⟩

/-- What fits no kind is a lexeme that errors come up at. -/
theorem raised_stopped (h : (stopped text).lexeme = .unknown) :
    ((stopped text).error .unreadable).Raised text := by
  obtain ⟨n, hn⟩ := stopped_eq_advance text
  obtain ⟨t, ht⟩ := reached_advance_iterate text n
  rw [hn] at h ⊢
  have hstarts : StartsLexeme (advance^[n] (ofText text)).cursor.skipGap.rest := by
    intro c hc
    refine ⟨Cursor.head_skipGap hc, fun hhash => ?_⟩
    have hcomment := Lexical.classify_comment_iff.mpr (hc.trans (congrArg some hhash))
    exact absurd (hcomment.symm.trans h) (by decide)
  have hlexeme : (advance^[n] (ofText text)).advance.AtLexeme text :=
    ⟨⟨_, ht.advance⟩, _, _, ht.tracked.past.skipGap, hstarts, advance_eq _⟩
  exact .unfit hlexeme (fun heof => absurd (heof.symm.trans h) (by decide)) (fun _ => h)
    (List.forall_mem_nil _)

end Scanner

namespace SyntaxError

/-- Whether there is a diagnostic does not depend on the file. -/
theorem exists_diagnostic_inFile {e : SyntaxError} {source : Option String} (path : String) :
    (∃ shown, (e.inFile path).diagnostic source = .ok shown) ↔
      ∃ shown, e.diagnostic source = .ok shown := by
  obtain ⟨front, behind, hdiagnostic, hfile⟩ := e.pathOnly.diagnostic source
  rw [hdiagnostic, hfile]
  cases behind <;> simp [Except.map]

end SyntaxError

/-! ## The command -/

namespace Token

/-- A text has one token that fits no kind, where the scan stops at it. -/
theorem find?_unknown (text : String) :
    ((listOfText text).find? fun t => t.lexeme = .unknown) =
      if (Scanner.stopped text).lexeme = .unknown then some (Scanner.stopped text).shown
      else none := by
  obtain ⟨init, last, htokens, -, hinit⟩ := TokenStream.toList_eq_append (.ofText text)
  have hlast := Scanner.getLast?_listOfText text
  have htokens : listOfText text = init ++ [last] := htokens
  rw [htokens, List.getLast?_concat, Option.some.injEq] at hlast
  have hnone : (init.find? fun t => t.lexeme = .unknown) = none := by
    rw [List.find?_eq_none]
    intro t ht
    simpa using (Lexeme.isControl_eq_false_iff.mp (hinit t ht)).2
  rw [htokens, List.find?_append, hnone, hlast, Option.none_or, List.find?_singleton]
  simp only [Scanner.lexeme_shown, decide_eq_true_eq]

end Token

namespace Command

/-- The lines of a listing. -/
def listingLines (skipComments : Bool) (text : String) : List String :=
  (Token.listed skipComments (Token.listOfText text)).map Token.listing

/-- The error of a text with something that fits no kind. -/
def listingError (path text : String) : SyntaxError :=
  let s := Scanner.stopped text
  (SyntaxError.unexpected s.failureText s.failureSpan .unreadable).inFile path

/-- The listing that the command fills, line by line. -/
theorem join_listed (skipComments : Bool) (text : String) :
    String.join ((Token.listed skipComments (Token.listOfText text)).map fun t =>
      t.listing ++ "\n") = String.join ((listingLines skipComments text).map (· ++ "\n")) := by
  rw [listingLines, List.map_map]
  rfl

/-- Without the white space at its end, it is the lines with line feeds between them. -/
theorem trimEnd_listing (skipComments : Bool) (text : String) :
    trimEnd (String.join ((listingLines skipComments text).map (· ++ "\n"))) =
      "\n".intercalate (listingLines skipComments text) := by
  refine trimEnd_lines fun line hline => ?_
  obtain ⟨t, -, rfl⟩ := List.mem_map.mp hline
  obtain ⟨front, hfront⟩ := t.listing_quote
  exact ⟨front, '"', hfront, by decide⟩

/-- The command, by where the scan of the text stops. -/
theorem listTokensOf_eq (skipComments : Bool) (path text : String) :
    listTokensOf skipComments path text =
    let lines := listingLines skipComments text
    if (Scanner.stopped text).lexeme = .unknown then
      ((listingError path text).diagnostic (some text)).map fun diagnostic =>
        .failed (String.join (lines.map (· ++ "\n"))) diagnostic []
    else .ok (.succeeded ("\n".intercalate lines) [⟨.debug, "Scanned " ++ toString lines.length ++
      " tokens from " ++ quoted path ++ "."⟩]) := by
  unfold listTokensOf
  dsimp only
  rw [join_listed, trimEnd_listing, Token.find?_unknown]
  split
  · rename_i t ht
    split at ht
    · rename_i hunknown
      cases ht
      rw [if_pos hunknown, Scanner.shown, if_pos hunknown]
      rfl
    · cases ht
  · rename_i hnone
    split at hnone
    · cases hnone
    · rename_i hknown
      rw [if_neg hknown, listingLines, List.length_map]

variable {skipComments : Bool} {path text : String}

theorem lineFeed_notMem_listingLines :
    ∀ line ∈ listingLines skipComments text, '\n' ∉ line.toList := by
  intro line hline
  obtain ⟨t, -, rfl⟩ := List.mem_map.mp hline
  exact t.oneLine_listing.lineFeed_notMem

/-- Leaving out the comments leaves out their lines. -/
theorem listingLines_eq (skipComments : Bool) (text : String) :
    let tokens := (Token.listOfText text).filter (·.lexeme ≠ .unknown)
    listingLines skipComments text =
      (if skipComments then tokens.filter (·.lexeme ≠ .comment) else tokens).map Token.listing := by
  unfold listingLines Token.listed
  cases skipComments with
  | false => simp
  | true => simp [List.filter_filter, and_comm]

/-- The end of input has a line. -/
theorem listingLines_of_eof (h : (Scanner.stopped text).lexeme = .eof) :
    listingLines skipComments text ≠ [] ∧ (listingLines skipComments text).getLast? ≠ some "" := by
  have hmem := List.mem_of_getLast? (Scanner.getLast?_listOfText text)
  have hlisted : (Scanner.stopped text).shown ∈
      Token.listed skipComments (Token.listOfText text) := by
    rw [Token.listed, List.mem_filter, Scanner.lexeme_shown, h]
    exact ⟨hmem, by cases skipComments <;> rfl⟩
  refine ⟨List.ne_nil_of_mem (List.mem_map_of_mem hlisted), fun hlast => ?_⟩
  obtain ⟨t, -, ht⟩ := List.mem_map.mp (List.mem_of_getLast? hlast)
  simp [Token.listing] at ht

/-- Where the scan comes to the end of input, the command succeeds with the listing. -/
theorem listTokensOf_of_eof (skipComments : Bool) (path : String)
    (h : (Scanner.stopped text).lexeme = .eof) :
    ∃ outcome, listTokensOf skipComments path text = .ok outcome ∧ outcome.success = true ∧
      outcome.stderr = none ∧ outcome.printedLines = listingLines skipComments text := by
  obtain ⟨hne, hlast⟩ := listingLines_of_eof h
  rw [listTokensOf_eq, if_neg (by rw [h]; decide)]
  exact ⟨_, rfl, rfl, rfl,
    Outcome.printedLines_succeeded hne lineFeed_notMem_listingLines hlast _⟩

/-- Where it does not, the command fails with the diagnostic behind the listing. -/
theorem listTokensOf_of_diagnostic (skipComments : Bool) {diagnostic : String}
    (h : (Scanner.stopped text).lexeme = .unknown)
    (hdiagnostic : (listingError path text).diagnostic (some text) = .ok diagnostic) :
    ∃ outcome, listTokensOf skipComments path text = .ok outcome ∧ outcome.success = false ∧
      outcome.stderr = some diagnostic ∧
      outcome.printedLines = listingLines skipComments text := by
  rw [listTokensOf_eq, if_pos h, hdiagnostic]
  exact ⟨_, rfl, rfl, rfl, Outcome.printedLines_failed lineFeed_notMem_listingLines _ _⟩

/-- There is a diagnostic where its marker is not too far to the right. -/
theorem exists_diagnostic_listingError (path : String)
    (h : (Scanner.stopped text).lexeme = .unknown) :
    (∃ diagnostic, (listingError path text).diagnostic (some text) = .ok diagnostic) ↔
      (Scanner.stopped text).start.column ≤ Layout.widest + 1 := by
  have hraised := Scanner.raised_stopped h
  obtain ⟨line, hline⟩ := hraised.exists_line
  have hfits : ((Scanner.stopped text).error .unreadable).Fits ↔
      (Scanner.stopped text).start.column ≤ Layout.widest + 1 := by
    rw [SyntaxError.Fits, SyntaxError.column, ← Scanner.failureSpan_start]
    simp [Scanner.error, SyntaxError.unexpected, SyntaxError.ofMessage]
  rw [listingError, SyntaxError.exists_diagnostic_inFile, ← hfits]
  exact (hraised.laysOut_diagnostic hline).ok_iff

/-- The command comes to an end, unless it would have to lay out a marker that is too far to the
right. -/
theorem exists_listTokensOf (skipComments : Bool) (path text : String) :
    (∃ outcome, listTokensOf skipComments path text = .ok outcome) ↔
      ((Scanner.stopped text).lexeme = .unknown →
        (Scanner.stopped text).start.column ≤ Layout.widest + 1) := by
  rcases Scanner.stopped_eof_or_unknown text with h | h
  · obtain ⟨outcome, houtcome, -⟩ := listTokensOf_of_eof skipComments path h
    exact iff_of_true ⟨outcome, houtcome⟩ fun hunknown =>
      absurd (h.symm.trans hunknown) (by decide)
  · rw [← exists_diagnostic_listingError path h, forall_prop_of_true h,
      listTokensOf_eq, if_pos h]
    cases (listingError path text).diagnostic (some text) <;> simp [Except.map]

/-- **The listing of tokens has a line for each token.** A scan comes to the end of input or to a
text that fits no kind. The command prints the tokens before that, and the end of input, each on a
line of its own that shows where the token starts, its kind and its text. It succeeds at the end of
input, and fails with the diagnostic of what fits no kind otherwise. Leaving out the comments takes
away their lines and nothing else. Only a diagnostic that cannot be laid out, because it is too far
to the right, takes away what there is to print. -/
theorem listTokens_lines {files : FileSystem} (hread : files.read path = .ok text) :
    let s := Scanner.stopped text
    let tokens := (Token.listOfText text).filter (·.lexeme ≠ .unknown)
    let e := (SyntaxError.unexpected s.failureText s.failureSpan .unreadable).inFile path
    (s.lexeme = .eof ∧ (Token.listOfText text).getLast? = some s.token ∨
      s.lexeme = .unknown ∧ (Token.listOfText text).getLast? =
        some (.plain .unknown s.failureText s.failureSpan)) ∧
    (∀ t : Token, t.ShownBy t.listing) ∧
    (∀ skipComments outcome, listTokens files skipComments path = .ok outcome →
      outcome.printedLines =
        (if skipComments then tokens.filter (·.lexeme ≠ .comment) else tokens).map Token.listing ∧
      (s.lexeme = .eof → outcome.success = true ∧ outcome.stderr = none) ∧
      (s.lexeme = .unknown → outcome.success = false ∧
        ∃ diagnostic, e.diagnostic (some text) = .ok diagnostic ∧
          outcome.stderr = some diagnostic)) ∧
    ∀ skipComments, (∃ outcome, listTokens files skipComments path = .ok outcome) ↔
      (s.lexeme = .unknown → s.start.column ≤ Layout.widest + 1) := by
  dsimp only
  have hlast := Scanner.getLast?_listOfText text
  have hlist (skipComments : Bool) :
      listTokens files skipComments path = listTokensOf skipComments path text := by
    rw [listTokens, hread]
  refine ⟨?_, Token.shownBy_listing, fun skipComments outcome houtcome => ?_,
    fun skipComments => ?_⟩
  · rw [hlast, Scanner.shown]
    rcases Scanner.stopped_eof_or_unknown text with h | h
    · exact .inl ⟨h, by rw [if_neg (by rw [h]; decide)]⟩
    · exact .inr ⟨h, by rw [if_pos h]⟩
  · rw [hlist] at houtcome
    rw [← listingLines_eq]
    rcases Scanner.stopped_eof_or_unknown text with h | h
    · obtain ⟨outcome', houtcome', hsuccess, hstderr, hlines⟩ :=
        listTokensOf_of_eof skipComments path h
      obtain rfl : outcome' = outcome := Except.ok.inj (houtcome'.symm.trans houtcome)
      exact ⟨hlines, fun _ => ⟨hsuccess, hstderr⟩,
        fun hunknown => absurd (h.symm.trans hunknown) (by decide)⟩
    · obtain ⟨diagnostic, hdiagnostic⟩ := (exists_diagnostic_listingError path h).mpr
        ((exists_listTokensOf skipComments path text).mp ⟨outcome, houtcome⟩ h)
      obtain ⟨outcome', houtcome', hsuccess, hstderr, hlines⟩ :=
        listTokensOf_of_diagnostic skipComments h hdiagnostic
      obtain rfl : outcome' = outcome := Except.ok.inj (houtcome'.symm.trans houtcome)
      exact ⟨hlines, fun heof => absurd (h.symm.trans heof) (by decide),
        fun _ => ⟨hsuccess, diagnostic, hdiagnostic, hstderr⟩⟩
  · rw [hlist]
    exact exists_listTokensOf skipComments path text

/-- One file with the given text. -/
def oneFile (text : String) : FileSystem :=
  ⟨fun path => [.entry path true], fun _ => true, fun _ => .ok text, fun _ => "task panicked"⟩

/-- A comment, a literal over two lines, and a character that starts no lexeme. -/
def sampleListing : String := "# é\n\"\"\"\r\n\"\"\" !"

theorem listTokens_lines_blockString : ∃ outcome,
    (oneFile sampleListing).read "f" = .ok sampleListing ∧
    listTokens (oneFile sampleListing) true "f" = .ok outcome ∧ outcome.success = false ∧
    outcome.printedLines =
      ["   2:1    BlockString        \"\\\"\\\"\\\"\\r\\n\\\"\\\"\\\"\""] := by
  have hread : (oneFile sampleListing).read "f" = .ok sampleListing := rfl
  obtain ⟨-, -, hlines, hends⟩ := listTokens_lines hread
  obtain ⟨outcome, houtcome⟩ := (hends true).mpr (by decide +kernel)
  obtain ⟨hprinted, -, hfailed⟩ := hlines true outcome houtcome
  exact ⟨outcome, hread, houtcome, (hfailed (by decide +kernel)).1,
    hprinted.trans (by decide +kernel)⟩

end Command

/-! ## Long lines -/

namespace Scanner

variable {text : String} {n : Nat}

theorem isGap_of_mem_blanks : ∀ c ∈ List.replicate n ' ', Lexical.isGap c := by
  intro c hc
  rw [List.eq_of_mem_replicate hc]
  rfl

/-- The name at the start of a line with blanks behind it. -/
theorem advance_of_blanks (h : text.toList = 'a' :: (List.replicate (n + 1) ' ' ++ ['!'])) :
    (ofText text).advance = ⟨(Cursor.ofText text).consume ['a'], .name, .start, ['a']⟩ := by
  have hskip : (Cursor.ofText text).skipGap = .ofText text := by
    rw [Cursor.skipGap, Cursor.ofText, h]
    rfl
  have hrest : (Cursor.ofText text).rest = 'a' :: (List.replicate (n + 1) ' ' ++ ['!']) := h
  rw [advance_eq, ofText, hskip, ofCursor, hrest]
  rfl

theorem rest_behind_name (h : text.toList = 'a' :: (List.replicate (n + 1) ' ' ++ ['!'])) :
    ((Cursor.ofText text).consume ['a']).rest = List.replicate (n + 1) ' ' ++ ['!'] :=
  Cursor.rest_consume_of_append h

/-- A scan may stop at its second step. -/
theorem listOfText_of_two (hfirst : (ofText text).advance.lexeme.isControl = false)
    (hsecond : (ofText text).advance.advance.lexeme.isControl = true) :
    Token.listOfText text = [(ofText text).advance.shown, (ofText text).advance.advance.shown] ∧
      stopped text = (ofText text).advance.advance := by
  have htokens : Token.listOfText text =
      [(ofText text).advance.shown, (ofText text).advance.advance.shown] := by
    rw [Token.listOfText, TokenStream.ofText, TokenStream.toList_unfinished, hfirst,
      TokenStream.toList_unfinished, hsecond, TokenStream.toList_finished]
  refine ⟨htokens, ?_⟩
  rw [stopped, htokens]
  rfl

/-- What stands behind the blanks is far to the right if there are many of them. -/
theorem column_of_blanks (h : text.toList = 'a' :: (List.replicate (n + 1) ' ' ++ ['!'])) :
    ((Cursor.ofText text).consume ['a']).skipGap.position.column = n + 3 := by
  have hname : ['a'] <+: (Cursor.ofText text).rest := ⟨_, h.symm⟩
  have hpast := ((Cursor.Past.start text).consume hname).skipGap
  have hgap : ((Cursor.ofText text).consume ['a']).rest.takeWhile Lexical.isGap =
      List.replicate (n + 1) ' ' := by
    rw [rest_behind_name h, List.takeWhile_append_of_pos isGap_of_mem_blanks]
    exact List.append_nil _
  rw [hgap] at hpast
  have htrail : Trail.text ([] ++ ['a'].map Passed.read ++ (List.replicate (n + 1) ' ').map .skip) =
      'a' :: List.replicate (n + 1) ' ' := by
    rw [Trail.text_append, Trail.text_append, Trail.text_read, Trail.text_skip]
    rfl
  have hline : ∀ c ∈ 'a' :: List.replicate (n + 1) ' ', inLine c := by
    refine List.forall_mem_cons.mpr ⟨rfl, fun c hc => ?_⟩
    rw [List.eq_of_mem_replicate hc]
    rfl
  have hsize : 'a'.utf8Size = 1 := rfl
  rw [hpast.position_eq, Trail.column_eq (by rw [htrail]; simp [Lexical.byteOrderMark]), htrail,
    List.rtakeWhile_eq_self_iff.mpr hline, byteLength_cons, byteLength_blanks]
  omega

/-- The scan of a line with a name, blanks and a character that starts no lexeme stops at that
character. -/
theorem stopped_of_blanks (h : text.toList = 'a' :: (List.replicate (n + 1) ' ' ++ ['!'])) :
    (stopped text).lexeme = .unknown ∧ (stopped text).start.column = n + 3 ∧
      ∃ t ∈ Token.listOfText text, t.lexeme = .name := by
  have hfirst := advance_of_blanks h
  have hname : (ofText text).advance.lexeme = .name := by rw [hfirst]
  have hunknown : (ofText text).advance.advance.lexeme = .unknown := by
    rw [lexeme_advance, hfirst, rest_behind_name h,
      List.dropWhile_append_of_pos isGap_of_mem_blanks]
    rfl
  obtain ⟨htokens, hstopped⟩ := listOfText_of_two (by rw [hname]; rfl) (by rw [hunknown]; rfl)
  have hcolumn : (ofText text).advance.advance.start.column = n + 3 := by
    rw [hfirst]
    exact column_of_blanks h
  rw [hstopped]
  exact ⟨hunknown, hcolumn, _, by rw [htokens]; exact List.mem_cons_self, by
    rwa [lexeme_shown]⟩

end Scanner

/-- Far to the right on a long line, what fits no kind has no diagnostic, and the name before it is
not listed. -/
theorem Command.no_listing_of_long_line : ∃ text,
    text = String.ofList ('a' :: (List.replicate 65535 ' ' ++ ['!'])) ∧
      (∃ t ∈ Token.listOfText text, t.lexeme = .name) ∧
      ¬ ∃ outcome, listTokens (oneFile text) false "f" = .ok outcome := by
  refine ⟨_, rfl, ?_⟩
  obtain ⟨hunknown, hcolumn, hname⟩ :=
    Scanner.stopped_of_blanks (n := 65534) (String.toList_ofList)
  refine ⟨hname, fun hok => ?_⟩
  have hfits := (exists_listTokensOf false "f" _).mp hok hunknown
  rw [hcolumn] at hfits
  exact absurd hfits (by decide)

end GraphQLSyntax
