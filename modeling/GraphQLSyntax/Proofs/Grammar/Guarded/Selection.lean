import GraphQLSyntax.Proofs.Grammar.Complete.Selection
import GraphQLSyntax.Proofs.Grammar.Guarded.Value

/-!
# Selections are guarded

* `Reader.guards_arguments`, `Reader.guards_directives`: what fields and fragments are given.
* `Reader.GuardsSets`: a reader guards the selection sets at a level.
* `Reader.guards_selection`: a selection is guarded, if the sets in it are.
* `Reader.guards_selectionSet`: a selection set is refused at the first set that nests too deep in
  it.
-/

namespace GraphQLSyntax

open Leveled

variable {k k' : Cursor} {outer depth : Nat}

namespace Reader

/-! ## Arguments -/

/-- An argument is guarded where it stands. -/
theorem guards_argument {a : Argument} (h : (Part.node (.argument a)).ShapedWithin)
    (hlaid : LaidOut a.leveled k k') (hnext : k'.ahead ≠ .unknown) :
    argument.Guards a.leveled k := by
  obtain ⟨name, value, span⟩ := a
  have hname : name.IsPlainName := h.self
  obtain ⟨hat, h₁⟩ := hlaid.cons
  obtain ⟨hcolon, h₂⟩ := h₁.cons
  refine Guards.spanned (Guards.step rfl (gives_plainName hname hat ?_) fun _ _ => ?_)
  · exact h₁.ahead_eq ▸ (by decide)
  cases value with
  | literal v =>
    have hv : (Part.node (.value v)).ShapedWithin := h.part (by simp [Part.parts, Node.parts])
    have hahead := h₂.ahead_mem (starts_value hv)
    refine Guards.step rfl (gives_expect hcolon (ne_of_mem_of_not_mem hahead (by decide)))
      fun _ _ => Guards.map (Guards.lexeme_bind ?_) _
    rw [if_neg (ne_of_mem_of_not_mem hahead (by decide))]
    exact (guards_value hv h₂ hnext).map _
  | reference t =>
    have hahead := h₂.ahead_of (l := .dollar) rfl
    obtain ⟨hsigil, rfl⟩ := h₂.single
    refine Guards.step rfl (gives_expect hcolon (hahead ▸ by decide))
      fun _ _ => Guards.map (Guards.lexeme_bind ?_) _
    rw [if_pos hahead]
    exact ((gives_sigil rfl (.inl rfl) hsigil hnext).guards rfl).map _

theorem starts_argument {a : Argument} (h : (Part.node (.argument a)).ShapedWithin) :
    Starts [.name] a.leveled := by
  have hname : a.name.IsPlainName := h.self
  exact starts_cons (List.mem_singleton.mpr (ahead_plainName hname))

/-- Arguments are guarded where they stand, in parentheses. -/
theorem guards_arguments {arguments : List Argument}
    (h : ∀ a ∈ arguments, (Part.node (.argument a)).ShapedWithin)
    (hlaid : LaidOut (Leveled.parenthesised (arguments.flatMap Argument.leveled)) k k')
    (hnext : k'.ahead ∉ [.unknown, .parenOpen]) :
    Reader.arguments.Guards (Leveled.parenthesised (arguments.flatMap Argument.leveled)) k := by
  refine Production.guards_parenthesised (S := [.name]) hlaid hnext
    (fun a ha => starts_argument (h a ha)) (by decide) fun a ha k₁ k₂ hlaid hk₂ => ?_
  exact guards_argument (h a ha) hlaid (ne_of_mem_of_not_mem hk₂ (by decide))

/-! ## Directives -/

theorem starts_directive (d : Directive) : Starts [.atSign] d.leveled :=
  starts_cons (List.mem_singleton.mpr rfl)

/-- A directive is guarded where it stands. -/
theorem guards_directive {d : Directive} (h : (Part.node (.directive d)).ShapedWithin)
    (hlaid : LaidOut d.leveled k k') (hnext : k'.ahead ∉ [.unknown, .parenOpen]) :
    directive.Guards d.leveled k := by
  have harguments (a : Argument) (ha : a ∈ d.arguments) :
      (Part.node (.argument a)).ShapedWithin := h.part (by simp [Part.parts, Node.parts, ha])
  obtain ⟨hat, h₁⟩ := hlaid.cons
  have hknown := h₁.ahead_parenthesised
  refine Guards.spanned (Guards.step rfl (gives_sigil rfl (.inr rfl) hat ?_) fun _ _ => ?_)
  · grind
  · exact (guards_arguments harguments h₁ hnext).map _

/-- Directives are guarded where they stand. -/
theorem guards_directives {directives : List Directive}
    (h : ∀ d ∈ directives, (Part.node (.directive d)).ShapedWithin)
    (hlaid : LaidOut (directives.flatMap Directive.leveled) k k')
    (hnext : k'.ahead ∉ [.unknown, .parenOpen, .atSign]) :
    Reader.directives.Guards (directives.flatMap Directive.leveled) k := by
  simp only [List.mem_cons, List.not_mem_nil, or_false, not_or] at hnext
  obtain ⟨hunknown, hparen, hsign⟩ := hnext
  refine Production.guards_whileAt hlaid hsign (fun d _ => starts_directive d)
    fun d hd k₁ k₂ hlaid hk₂ => guards_directive (h d hd) hlaid ?_
  grind

/-! ## Fields

The readers of selections read with `nested` for the selection sets in them. -/

/-- `nested` guards the selection sets that lie in `outer` others. -/
def GuardsSets (nested : Reader (List Selection)) (outer : Nat) : Prop :=
  ∀ selections k k', (∀ s ∈ selections, (Part.node (.selection s)).ShapedWithin) →
    selections ≠ [] →
    LaidOut (Leveled.braced (outer + 1) (Selection.leveledAll (outer + 1) selections)) k k' →
    k'.ahead ≠ .unknown →
    nested.Guards (Leveled.braced (outer + 1) (Selection.leveledAll (outer + 1) selections)) k

variable {nested : Reader (List Selection)}

/-- The selections of a field are guarded where they stand. -/
theorem guards_fieldBody {selections : List Selection} (hnested : GuardsSets nested outer)
    (h : ∀ s ∈ selections, (Part.node (.selection s)).ShapedWithin)
    (hlaid : LaidOut (Selection.leveledBody outer selections) k k')
    (hnext : k'.ahead ∉ [.unknown, .curlyOpen]) : k.ahead ∈ [k'.ahead, .curlyOpen] ∧
      (whenAt .curlyOpen [] nested).Guards (Selection.leveledBody outer selections) k := by
  simp only [List.mem_cons, List.not_mem_nil, or_false, not_or] at hnext
  cases selections with
  | nil =>
    obtain rfl := LaidOut.nil hlaid
    exact ⟨by simp, Guards.whenAt_absent hnext.2⟩
  | cons s rest =>
    have hahead := LaidOut.ahead_of (l := .curlyOpen) hlaid rfl
    refine ⟨by simp [hahead], Guards.whenAt hahead ?_⟩
    exact hnested _ k k' h (List.cons_ne_nil _ _) hlaid hnext.1

/-- What may follow the name of a field is guarded where it stands. -/
theorem guards_fieldRest {arguments : List Argument} {directives : List Directive}
    {selections : List Selection} (hnested : GuardsSets nested outer)
    (harguments : ∀ a ∈ arguments, (Part.node (.argument a)).ShapedWithin)
    (hdirectives : ∀ d ∈ directives, (Part.node (.directive d)).ShapedWithin)
    (hselections : ∀ s ∈ selections, (Part.node (.selection s)).ShapedWithin)
    (hlaid : LaidOut (Leveled.parenthesised (arguments.flatMap Argument.leveled) ++
      (directives.flatMap Directive.leveled ++ Selection.leveledBody outer selections)) k k')
    (hnext : k'.ahead ∈ [.curlyClose, .name, .period]) :
    k.ahead ∉ [.unknown, .colon] ∧
      ∀ build : List Argument → List Directive → List Selection → Span → Selection, Guards (do
        let as ← Reader.arguments
        let ds ← Reader.directives
        let ss ← whenAt .curlyOpen [] nested
        return build as ds ss)
        (Leveled.parenthesised (arguments.flatMap Argument.leveled) ++
          (directives.flatMap Directive.leveled ++ Selection.leveledBody outer selections)) k := by
  obtain ⟨k₁, hlaid₁, hrest⟩ := hlaid.append
  obtain ⟨k₂, hlaid₂, hlaid₃⟩ := hrest.append
  obtain ⟨hk₂, hbody⟩ := guards_fieldBody hnested hselections hlaid₃ (by grind)
  have hk₁ := hlaid₂.ahead_flatMap fun d _ => starts_directive d
  have hk := hlaid₁.ahead_parenthesised
  refine ⟨by grind, fun build => ?_⟩
  refine (guards_arguments harguments hlaid₁ (by grind)).bind hlaid₁ fun as _ => ?_
  refine (guards_directives hdirectives hlaid₂ (by grind)).bind hlaid₂ fun ds _ => ?_
  exact hbody.map _

/-- The name behind an alias is read where it stands. -/
theorem guards_aliased {name : Token} (hname : name.IsPlainName)
    (hlaid : LaidOut [plain (.lexeme .colon ":"), plain name.terminal] k k')
    (hnext : k'.ahead ≠ .unknown) :
    aliased.Guards [plain (.lexeme .colon ":"), plain name.terminal] k := by
  obtain ⟨hcolon, h₁⟩ := hlaid.cons
  have hk₁ := h₁.ahead_of (ahead_plainName hname)
  obtain ⟨hat, rfl⟩ := h₁.single
  refine Guards.whenAt hcolon.ahead (Guards.step rfl (gives_expect hcolon ?_) fun _ _ => ?_)
  · exact hk₁ ▸ (by decide)
  · exact ((gives_plainName hname hat hnext).guards rfl).map _

/-- A field is guarded where it stands, in front of another selection or the end of its set. -/
theorem guards_field {aliasName : Option Token} {name : Token} {arguments : List Argument}
    {directives : List Directive} {selections : List Selection} {span : Span}
    (hnested : GuardsSets nested outer)
    (h : (Part.node (.selection
      (.field aliasName name arguments directives selections span))).ShapedWithin)
    (hlaid : LaidOut
      ((Selection.field aliasName name arguments directives selections span).leveled outer) k k')
    (hnext : k'.ahead ∈ [.curlyClose, .name, .period]) :
    (field nested).Guards
      ((Selection.field aliasName name arguments directives selections span).leveled outer) k := by
  obtain ⟨halias, hname⟩ : (∀ t ∈ aliasName, t.IsPlainName) ∧ name.IsPlainName := h.self
  have harguments (a : Argument) (ha : a ∈ arguments) :
      (Part.node (.argument a)).ShapedWithin :=
    h.part (by simp [Part.parts, Node.parts, Node.selectionParts, ha])
  have hdirectives (d : Directive) (hd : d ∈ directives) :
      (Part.node (.directive d)).ShapedWithin :=
    h.part (by simp [Part.parts, Node.parts, Node.selectionParts, hd])
  have hselections (s : Selection) (hs : s ∈ selections) :
      (Part.node (.selection s)).ShapedWithin :=
    h.part (by simp [Part.parts, Node.parts, Node.selectionParts, hs])
  rw [Selection.leveled_field] at hlaid ⊢
  apply Guards.spanned
  cases aliasName with
  | none =>
    obtain ⟨hat, hrest⟩ := hlaid.cons
    obtain ⟨hk₁, hguards⟩ := guards_fieldRest hnested harguments hdirectives hselections hrest hnext
    have habsent : aliased.Guards [] (k.behind name.terminal) := Guards.whenAt_absent (by grind)
    refine Guards.step rfl (gives_plainName hname hat (by grind)) fun first _ => ?_
    exact habsent.bind (.empty _) fun second _ => hguards _
  | some t =>
    rw [Option.toList_some, List.flatMap_singleton] at hlaid ⊢
    obtain ⟨hat, h₁⟩ := hlaid.cons
    have hk₁ := h₁.ahead_of (l := .colon) rfl
    obtain ⟨k₃, hname', hrest⟩ := h₁.pair
    obtain ⟨hk₃, hguards⟩ := guards_fieldRest hnested harguments hdirectives hselections hrest hnext
    refine Guards.step rfl (gives_plainName (halias t rfl) hat (by grind)) fun first _ => ?_
    exact (guards_aliased hname hname' (by grind)).bind hname' fun second _ => hguards _

/-! ## Spreads -/

/-- What follows the type condition of an inline fragment is guarded where it stands. -/
theorem guards_inlineFragment {directives : List Directive} {selections : List Selection}
    (hnested : GuardsSets nested outer)
    (hdirectives : ∀ d ∈ directives, (Part.node (.directive d)).ShapedWithin)
    (hselections : ∀ s ∈ selections, (Part.node (.selection s)).ShapedWithin)
    (hne : selections ≠ [])
    (hlaid : LaidOut (directives.flatMap Directive.leveled ++
      Leveled.braced (outer + 1) (Selection.leveledAll (outer + 1) selections)) k k')
    (hnext : k'.ahead ≠ .unknown) : k.ahead ∉ [.unknown, .name] ∧
      ∀ typeCondition, (inlineFragment typeCondition nested).Guards
        (directives.flatMap Directive.leveled ++
          Leveled.braced (outer + 1) (Selection.leveledAll (outer + 1) selections)) k := by
  obtain ⟨k₁, hlaid₁, hset⟩ := hlaid.append
  have hk₁ := LaidOut.ahead_of (l := .curlyOpen) hset rfl
  have hk := hlaid₁.ahead_flatMap fun d _ => starts_directive d
  refine ⟨by grind, fun typeCondition => ?_⟩
  refine (guards_directives hdirectives hlaid₁ (by grind)).bind hlaid₁ fun ds _ => ?_
  exact (hnested selections k₁ k' hselections hne hset hnext).map _

/-- A spread of a fragment is guarded where it stands, in front of another selection or the end of
its set. -/
theorem guards_fragmentSpread {name : Token} {directives : List Directive} {span : Span}
    (h : (Part.node (.selection (.fragmentSpread name directives span))).ShapedWithin)
    (hlaid : LaidOut ((Selection.fragmentSpread name directives span).leveled outer) k k')
    (hnext : k'.ahead ∈ [.curlyClose, .name, .period]) :
    (spread nested).Guards ((Selection.fragmentSpread name directives span).leveled outer) k := by
  obtain ⟨hname, hon⟩ : name.IsPlainName ∧ name.text ≠ "on" := h.self
  have hdirectives (d : Directive) (hd : d ∈ directives) :
      (Part.node (.directive d)).ShapedWithin :=
    h.part (by simp [Part.parts, Node.parts, Node.selectionParts, hd])
  rw [Selection.leveled] at hlaid ⊢
  obtain ⟨hdots, h₁⟩ := hlaid.cons
  have hk₁ := h₁.ahead_of (ahead_plainName hname)
  obtain ⟨hat, h₂⟩ := h₁.cons
  have hk₂ := h₂.ahead_flatMap fun d _ => starts_directive d
  refine Guards.spanned (Guards.step rfl (gives_spreadDots hdots ?_) fun _ _ => ?_)
  · exact hk₁ ▸ (by decide)
  refine Guards.keyword_bind ?_
  rw [if_neg (keyword_ne_on (hname.terminal_eq ▸ hat) hon)]
  refine Guards.lexeme_bind ?_
  rw [if_pos hk₁]
  refine Guards.step rfl (gives_plainName hname hat (by grind)) fun _ _ => ?_
  exact (guards_directives hdirectives h₂ (by grind)).map _

/-- An inline fragment is guarded where it stands. -/
theorem guards_inlineSpread {typeCondition : Option Token} {directives : List Directive}
    {selections : List Selection} {span : Span} (hnested : GuardsSets nested outer)
    (h : (Part.node (.selection
      (.inlineFragment typeCondition directives selections span))).ShapedWithin)
    (hlaid : LaidOut
      ((Selection.inlineFragment typeCondition directives selections span).leveled outer) k k')
    (hnext : k'.ahead ≠ .unknown) :
    (spread nested).Guards
      ((Selection.inlineFragment typeCondition directives selections span).leveled outer) k := by
  obtain ⟨htype, hne⟩ : (∀ t ∈ typeCondition, t.IsPlainName) ∧ selections ≠ [] := h.self
  have hdirectives (d : Directive) (hd : d ∈ directives) :
      (Part.node (.directive d)).ShapedWithin :=
    h.part (by simp [Part.parts, Node.parts, Node.selectionParts, hd])
  have hselections (s : Selection) (hs : s ∈ selections) :
      (Part.node (.selection s)).ShapedWithin :=
    h.part (by simp [Part.parts, Node.parts, Node.selectionParts, hs])
  rw [Selection.leveled] at hlaid ⊢
  obtain ⟨hdots, h₁⟩ := hlaid.cons
  apply Guards.spanned
  cases typeCondition with
  | none =>
    obtain ⟨hk₁, hguards⟩ := guards_inlineFragment hnested hdirectives hselections hne h₁ hnext
    simp only [List.mem_cons, List.not_mem_nil, or_false, not_or] at hk₁
    refine Guards.step rfl (gives_spreadDots hdots hk₁.1) fun _ _ => Guards.keyword_bind ?_
    rw [if_neg fun hon => hk₁.2 (Cursor.ahead_eq_name_of_keyword hon (by decide))]
    apply Guards.lexeme_bind
    rw [if_neg hk₁.2]
    exact hguards none
  | some t =>
    rw [Option.toList_some, List.flatMap_singleton] at h₁ ⊢
    have hk₁ := h₁.ahead_of (l := .name) rfl
    obtain ⟨hon, h₂⟩ := h₁.cons
    have hk₂ := h₂.ahead_of (ahead_plainName (htype t rfl))
    obtain ⟨hat, h₃⟩ := h₂.cons
    obtain ⟨hk₃, hguards⟩ := guards_inlineFragment hnested hdirectives hselections hne h₃ hnext
    refine Guards.step rfl (gives_spreadDots hdots (by grind)) fun _ _ => Guards.keyword_bind ?_
    rw [if_pos (hon.keyword_eq.trans (by decide))]
    refine Guards.step rfl (gives_onKeyword hon (hk₂.trans_ne (by decide))) fun _ _ => ?_
    exact Guards.step rfl (gives_plainName (htype t rfl) hat (by grind)) fun _ _ => hguards _

/-! ## Selection sets -/

theorem starts_selection {s : Selection} (h : (Part.node (.selection s)).ShapedWithin) :
    Starts [.name, .period] (s.leveled outer) := by
  cases s with
  | field aliasName name =>
    obtain ⟨halias, hname⟩ : (∀ t ∈ aliasName, t.IsPlainName) ∧ name.IsPlainName := h.self
    rw [Selection.leveled_field]
    cases aliasName with
    | none => exact starts_cons (by simp [ahead_plainName hname])
    | some t => exact starts_cons (by simp [ahead_plainName (halias t rfl)])
  | fragmentSpread => exact starts_cons (by decide)
  | inlineFragment => exact starts_cons (by decide)

/-- A selection is guarded where it stands, in front of another or the end of its set. -/
theorem guards_selection {s : Selection} (hnested : GuardsSets nested outer)
    (h : (Part.node (.selection s)).ShapedWithin) (hlaid : LaidOut (s.leveled outer) k k')
    (hnext : k'.ahead ∈ [.curlyClose, .name, .period]) :
    (selection nested).Guards (s.leveled outer) k := by
  apply Guards.lexeme_bind
  cases s with
  | field aliasName name =>
    have hahead : k.ahead = .name := by
      obtain ⟨halias, hname⟩ : (∀ t ∈ aliasName, t.IsPlainName) ∧ name.IsPlainName := h.self
      rw [Selection.leveled_field] at hlaid
      cases aliasName with
      | none => exact hlaid.ahead_of (ahead_plainName hname)
      | some t => exact hlaid.ahead_of (ahead_plainName (halias t rfl))
    rw [if_neg (by rw [hahead]; decide)]
    exact guards_field hnested h hlaid hnext
  | fragmentSpread =>
    rw [if_pos (LaidOut.ahead_of (l := .period) hlaid rfl)]
    exact guards_fragmentSpread h hlaid hnext
  | inlineFragment =>
    rw [if_pos (LaidOut.ahead_of (l := .period) hlaid rfl)]
    exact guards_inlineSpread hnested h hlaid (ne_of_mem_of_not_mem hnext (by decide))

/-- A selection set at a level that is allowed is guarded, if its selections are. -/
theorem guards_braced {allowEmpty : Bool} {item : Production Selection}
    {selections : List Selection} {level : Nat} (hlevel : level ≤ 64)
    (hlaid : LaidOut (Leveled.braced level (Selection.leveledAll level selections)) k k')
    (h : ∀ s ∈ selections, (Part.node (.selection s)).ShapedWithin)
    (hne : allowEmpty = false → selections ≠ []) (hnext : k'.ahead ≠ .unknown)
    (hitem : ∀ s ∈ selections, ∀ k k', LaidOut (s.leveled level) k k' →
      k'.ahead ∈ [.curlyClose, .name, .period] → item.read.Guards (s.leveled level) k) :
    (braced allowEmpty item).Guards
      (Leveled.braced level (Selection.leveledAll level selections)) k := by
  rw [Selection.leveledAll_eq] at hlaid ⊢
  refine Production.guards_enclosed hlaid (by simpa [Opening.tooDeep] using hlevel)
    (fun s hs => starts_selection (h s hs)) (by decide) (by decide) hitem ?_
  rintro opener items k₂ hempty hclose rfl
  rw [if_neg]
  · exact guards_advance hclose hnext items
  · grind

/-- A selection set is guarded where it stands: its level and the depth that is left make up what
may nest. -/
theorem guards_selectionSet {allowEmpty : Bool} {selections : List Selection} {level : Nat}
    (hdepth : level + depth = 65)
    (h : ∀ s ∈ selections, (Part.node (.selection s)).ShapedWithin)
    (hne : allowEmpty = false → selections ≠ [])
    (hlaid : LaidOut (Leveled.braced level (Selection.leveledAll level selections)) k k')
    (hnext : k'.ahead ≠ .unknown) :
    (Production.selectionSet allowEmpty depth).read.Guards
      (Leveled.braced level (Selection.leveledAll level selections)) k := by
  induction depth generalizing allowEmpty selections level k k' with
  | zero =>
    have hopen : (Terminal.lexeme .curlyOpen "\x7b").LaidAt k := hlaid.cons.1
    apply Guards.refused
    · simp [Opening.tooDeep]
      omega
    · have htext : (Reading.ofCursor k).scanner.text = "\x7b".toList :=
        congrArg Scanner.text hopen.scanner_eq
      have hahead : (Reading.ofCursor k).scanner.lexeme = .curlyOpen := hopen.ahead
      unfold Production.selectionSet failTooDeep
      dsimp only
      rw [lexeme_bind, if_pos hahead, fail_apply, htext, hopen.span_eq]
      rfl
  | succ depth ih =>
    refine guards_braced (by omega) hlaid h hne hnext fun s hs k k' hlaid hnext => ?_
    refine guards_selection ?_ (h s hs) hlaid hnext
    intro selections k k' h hne hlaid hnext
    exact ih (by omega) h (fun _ => hne) hlaid hnext

end Reader

end GraphQLSyntax
