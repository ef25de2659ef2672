import GraphQLSyntax.Proofs.Grammar.Complete.Value

/-!
# Selections that are written are read

Each of these is read where it stands, unless what follows would be read as more of it.

* `Reader.gives_arguments`, `Reader.gives_directives`: what fields and fragments are given.
* `Reader.GivesSets`: a reader reads the selection sets that nest no deeper than it can read.
* `Reader.gives_selection`: a selection.
* `Reader.takes_selectionSet`: a selection set.
-/

namespace GraphQLSyntax

namespace Reader

variable {σ : Convention} {g : Position → Position} {k k' : Cursor}

/-! ## Arguments -/

theorem gives_argumentValue {v : ArgumentValue} (h : Item.LaidOut σ g [v.item] k k')
    (hnext : k'.ahead ≠ .unknown) : argumentValue.Gives k k' fun v' => v'.map g = v := by
  have hahead := h.ahead_mem
  refine Gives.lexeme_bind ?_
  cases v with
  | literal v =>
    rw [if_neg]
    · refine (gives_value h.single hnext).bind fun v' hv' => Gives.pure ?_
      rw [ArgumentValue.map, hv']
    · intro heq
      rw [heq] at hahead
      exact absurd hahead (by simp [ArgumentValue.item])
  | reference t =>
    obtain ⟨⟨hlexeme, htype⟩, ⟨_, hrule, hitems⟩, -⟩ := h.single.node
    cases hrule with
    | reference =>
      rw [if_pos (List.mem_singleton.mp hahead)]
      refine (gives_sigilName rfl (.inl rfl) hitems.single hnext).bind fun t' ht' => Gives.pure ?_
      obtain ⟨lexeme, text, span, type⟩ := t
      obtain ⟨lexeme', text', span', type'⟩ := t'
      obtain rfl : lexeme = .name := hlexeme
      obtain rfl : type = some .variableName := htype
      cases ht'
      rfl

/-- An argument is read where it stands. -/
theorem gives_argument {a : Argument} (h : (Part.node (.argument a)).LaidOut σ g k k')
    (hnext : k'.ahead ≠ .unknown) : argument.Gives k k' fun a' => a'.map g = a := by
  obtain ⟨hname, ⟨_, hrule, hitems⟩, hspans⟩ := h.node
  have hspan := hspans a.span rfl
  cases hrule with
  | argument =>
    obtain ⟨k₁, htoken, h₁⟩ := hitems.part
    obtain ⟨hcolon, h₂⟩ := h₁.terminal
    have hvalue : Item.Avoid [.unknown] [a.value.item] := by
      cases a.value with
      | literal v => simp [ArgumentValue.item]
      | reference t => simp [ArgumentValue.item, Item.firsts, Node.firsts]
    refine Gives.spanned ?_
    refine (gives_name htoken hname ?_).bind fun name hname' => ?_
    · rw [hcolon.ahead]
      decide
    refine (gives_expect hcolon (h₂.ahead_ne hvalue hnext)).bind fun colon _ => ?_
    refine (gives_argumentValue h₂ hnext).bind fun value hvalue' => Gives.pure ?_
    rw [Argument.map, hname', hvalue', hspan]

/-- Arguments are read where they stand, in parentheses. -/
theorem gives_arguments {arguments : List Argument} {written : List Item}
    (hwritten : InParentheses (arguments.map Argument.item) written)
    (h : Item.LaidOut σ g written k k') (hnext : k'.ahead ∉ [.unknown, .parenOpen]) :
    Reader.arguments.Gives k k' fun as => as.map (Argument.map g) = arguments := by
  refine Production.gives_inParentheses (S := [.name]) hwritten h hnext (by simp) (by decide) ?_
  intro a _ k₁ k₂ hlaid hk₂
  refine gives_argument hlaid.single ?_
  intro heq
  rw [heq] at hk₂
  exact absurd hk₂ (by decide)

/-! ## Directives -/

/-- A directive is read where it stands. -/
theorem gives_directive {d : Directive} (h : (Part.node (.directive d)).LaidOut σ g k k')
    (hnext : k'.ahead ∉ [.unknown, .parenOpen]) : directive.Gives k k' fun d' => d'.map g = d := by
  obtain ⟨hname, ⟨_, hrule, hitems⟩, hspans⟩ := h.node
  have hspan := hspans d.span rfl
  cases hrule with
  | directive _ hwritten =>
    obtain ⟨k₁, htoken, h₁⟩ := hitems.part
    have hknown : k₁.ahead ≠ .unknown := by
      exact h₁.ahead_ne (hwritten.avoid (by simp) (by decide)) fun heq => hnext (by simp [heq])
    refine Gives.spanned ?_
    refine (gives_sigilName rfl (.inr rfl) htoken hknown).bind fun name hname' => ?_
    refine (gives_arguments hwritten h₁ hnext).bind fun arguments harguments => Gives.pure ?_
    rw [Directive.map, hname', harguments, hspan, ← hname.eq_plain]

/-- Directives are read where they stand. -/
theorem gives_directives {directives : List Directive}
    (h : Item.LaidOut σ g (directives.map Directive.item) k k')
    (hnext : k'.ahead ∉ [.unknown, .parenOpen, .atSign]) :
    Reader.directives.Gives k k' fun ds => ds.map (Directive.map g) = directives := by
  simp only [List.mem_cons, List.not_mem_nil, or_false, not_or] at hnext
  obtain ⟨hunknown, hparen, hsign⟩ := hnext
  refine Production.gives_whileAt h hsign (by simp) fun d _ k₁ k₂ hlaid hk₂ => ?_
  refine gives_directive hlaid.single ?_
  simp only [List.mem_cons, List.not_mem_nil, or_false] at hk₂ ⊢
  rcases hk₂ with hk₂ | hk₂ <;> rw [hk₂]
  · exact not_or.mpr ⟨hunknown, hparen⟩
  · decide

/-! ## Fields

The readers of selections read with `nested` for the selection sets in them. -/

/-- `nested` reads the selection sets that stand in a text and nest at most `depth` deep. -/
def GivesSets (σ : Convention) (g : Position → Position) (nested : Reader (List Selection))
    (depth : Nat) : Prop :=
  ∀ selections k k', Item.LaidOut σ g (Item.braced (selections.map Selection.item)) k k' →
    selections ≠ [] → Selection.setDepth selections ≤ depth → k'.ahead ≠ .unknown →
    nested.Gives k k' fun ss => ss.map (Selection.map g) = selections

variable {nested : Reader (List Selection)} {depth : Nat}

/-- The selections of a field are read where they stand. Where there are none, no brace may
follow. -/
theorem gives_fieldBody {selections : List Selection} (hnested : GivesSets σ g nested depth)
    (h : Item.LaidOut σ g (fieldBody selections) k k')
    (hdepth : selections.isEmpty = false → Selection.setDepth selections ≤ depth)
    (hnext : k'.ahead ∉ [.unknown, .curlyOpen]) :
    (whenAt .curlyOpen [] nested).Gives k k' fun ss => ss.map (Selection.map g) = selections := by
  simp only [List.mem_cons, List.not_mem_nil, or_false, not_or] at hnext
  unfold fieldBody at h
  cases selections with
  | nil =>
    obtain rfl := h.nil
    exact Gives.whenAt_absent hnext.2 rfl
  | cons s rest =>
    refine Gives.whenAt (List.mem_singleton.mp h.ahead_mem) ?_
    exact hnested _ k k' h (List.cons_ne_nil _ _) (hdepth rfl) hnext.1

/-- What may follow the name of a field is read where it stands. -/
theorem gives_fieldRest {arguments : List Argument} {directives : List Directive}
    {selections : List Selection} {written : List Item}
    {build : List Argument → List Directive → List Selection → Span → Selection}
    (hnested : GivesSets σ g nested depth)
    (hwritten : InParentheses (arguments.map Argument.item) written)
    (h : Item.LaidOut σ g (written ++ (directives.map Directive.item ++ fieldBody selections)) k k')
    (hdepth : selections.isEmpty = false → Selection.setDepth selections ≤ depth)
    (hnext : k'.ahead ∉ [.unknown, .parenOpen, .atSign, .curlyOpen]) :
    Gives (do
      let as ← Reader.arguments
      let ds ← Reader.directives
      let ss ← whenAt .curlyOpen [] nested
      return build as ds ss) k k' fun b => ∃ as ds ss, b = build as ds ss ∧
        as.map (Argument.map g) = arguments ∧ ds.map (Directive.map g) = directives ∧
        ss.map (Selection.map g) = selections := by
  obtain ⟨k₁, harguments, h₁⟩ := h.append
  obtain ⟨k₂, hdirectives, hbody⟩ := h₁.append
  have hk₂ : k₂.ahead ∉ [.unknown, .parenOpen, .atSign] :=
    hbody.ahead_notMem (avoid_fieldBody (by decide)) (by simp_all)
  have hk₁ : k₁.ahead ∉ [.unknown, .parenOpen] :=
    hdirectives.ahead_notMem (by simp) (by simp_all)
  refine (gives_arguments hwritten harguments hk₁).bind fun as has => ?_
  refine (gives_directives hdirectives hk₂).bind fun ds hds => ?_
  refine (gives_fieldBody hnested hbody hdepth (by simp_all)).bind fun ss hss => Gives.pure ?_
  exact ⟨as, ds, ss, rfl, has, hds, hss⟩

/-- The name behind an alias is read where it stands. -/
theorem gives_aliased {name : Token} (hname : name.IsPlainName)
    (hcolon : (Terminal.lexeme .colon ":").LaidAt k)
    (h : (Part.token name).LaidOut σ g (k.behind (.lexeme .colon ":")) k')
    (hnext : k'.ahead ≠ .unknown) :
    aliased.Gives k k' fun second => second.map (Token.map g) = some name := by
  refine Gives.whenAt hcolon.ahead ?_
  refine (gives_expect hcolon ?_).bind fun colon _ => ?_
  · rw [hname.ahead_eq h]
    decide
  · exact (gives_name h hname hnext).bind fun name' hname' => Gives.pure (congrArg some hname')

/-- A field is read where it stands, in front of another selection or the end of its set. -/
theorem gives_field {aliasName : Option Token} {name : Token} {arguments : List Argument}
    {directives : List Directive} {selections : List Selection} {span : Span}
    (hnested : GivesSets σ g nested depth)
    (h : (Part.node
      (.selection (.field aliasName name arguments directives selections span))).LaidOut σ g k k')
    (hdepth : selections.isEmpty = false → Selection.setDepth selections ≤ depth)
    (hnext : k'.ahead ∈ [.curlyClose, .name, .period]) :
    (field nested).Gives k k' fun s =>
      s.map g = .field aliasName name arguments directives selections span := by
  obtain ⟨⟨halias, hname⟩, ⟨_, hrule, hitems⟩, hspans⟩ := h.node
  have hspan := hspans span rfl
  have hfollow (ls : List Lexeme) (hls : ∀ l ∈ [.curlyClose, .name, .period], l ∉ ls) :
      k'.ahead ∉ ls := hls _ hnext
  cases hrule with
  | @field _ _ _ _ _ _ written hwritten =>
    have havoid : Item.Avoid [.unknown, .colon]
        (written ++ (directives.map Directive.item ++ fieldBody selections)) := by
      simp only [Item.avoid_append, Item.avoid_map]
      exact ⟨hwritten.avoid (by simp) (by decide), by simp, avoid_fieldBody (by decide)⟩
    refine Gives.spanned ?_
    cases aliasName with
    | none =>
      obtain ⟨k₁, htoken, h₁⟩ := hitems.part
      have hk₁ := h₁.ahead_notMem havoid (hfollow _ (by decide))
      simp only [List.mem_cons, List.not_mem_nil, or_false, not_or] at hk₁
      refine (gives_name htoken hname hk₁.1).bind fun first hfirst => ?_
      refine (Gives.whenAt_absent (P := (· = none)) hk₁.2 rfl).bind ?_
      rintro _ rfl
      refine (gives_fieldRest hnested hwritten h₁ hdepth (hfollow _ (by decide))).mono ?_
      rintro _ ⟨as, ds, ss, rfl, has, hds, hss⟩
      simp only [Selection.map, Selection.mapAll_eq, has, hds, hss, hfirst, hspan, Option.map_none]
    | some t =>
      rw [Option.toList_some, List.flatMap_singleton] at hitems
      obtain ⟨k₁, htoken, h₁⟩ := hitems.part
      obtain ⟨hcolon, h₂⟩ := h₁.terminal
      obtain ⟨k₃, hfield, h₃⟩ := h₂.part
      have hk₁ : k₁.ahead = .colon := hcolon.ahead
      have hk₃ := h₃.ahead_notMem havoid (hfollow _ (by decide))
      simp only [List.mem_cons, List.not_mem_nil, or_false, not_or] at hk₃
      refine (gives_name htoken (halias t rfl) (by rw [hk₁]; decide)).bind fun first hfirst => ?_
      refine (gives_aliased hname hcolon hfield hk₃.1).bind fun second hsecond => ?_
      refine (gives_fieldRest hnested hwritten h₃ hdepth (hfollow _ (by decide))).mono ?_
      rintro _ ⟨as, ds, ss, rfl, has, hds, hss⟩
      cases second with
      | none => cases hsecond
      | some fieldName =>
        have hname' : fieldName.map g = name := Option.some.inj hsecond
        simp only [Selection.map, Selection.mapAll_eq, has, hds, hss, hfirst, hname', hspan,
          Option.map_some]

/-! ## Spreads -/

/-- What follows the type condition of an inline fragment is read where it stands. -/
theorem gives_inlineFragment {typeCondition : Option Token} {directives : List Directive}
    {selections : List Selection} (hnested : GivesSets σ g nested depth)
    (h : Item.LaidOut σ g (directives.map Directive.item ++
      Item.braced (selections.map Selection.item)) k k')
    (hne : selections ≠ []) (hdepth : Selection.setDepth selections ≤ depth)
    (hnext : k'.ahead ≠ .unknown) :
    (inlineFragment typeCondition nested).Gives k k' fun build => ∃ ds ss,
      build = .inlineFragment typeCondition ds ss ∧ ds.map (Directive.map g) = directives ∧
        ss.map (Selection.map g) = selections := by
  obtain ⟨k₁, hdirectives, hset⟩ := h.append
  have hk₁ : k₁.ahead = .curlyOpen := List.mem_singleton.mp hset.ahead_mem
  refine (gives_directives hdirectives (by rw [hk₁]; decide)).bind fun ds hds => ?_
  refine (hnested selections k₁ k' hset hne hdepth hnext).bind fun ss hss => Gives.pure ?_
  exact ⟨ds, ss, rfl, hds, hss⟩

/-- The keyword `on` is read where it stands. -/
theorem gives_onKeyword (h : (Terminal.lexeme .name "on").LaidAt k)
    (hnext : (k.behind (.lexeme .name "on")).ahead ≠ .unknown) :
    onKeyword.Gives k (k.behind (.lexeme .name "on")) fun _ => True := by
  refine Gives.keyword_bind ?_
  rw [h.keyword_eq, if_pos (by decide)]
  exact (gives_take h hnext).mono fun _ _ => trivial

/-- The name of a fragment is not read as `on`. -/
theorem keyword_ne_on {text : String} (h : (Terminal.lexeme .name text).LaidAt k)
    (htext : text ≠ "on") : k.keyword ≠ .onKeyword := by
  rw [h.keyword_eq]
  intro hon
  have hspelling := (KeywordTable.spelling?_of_classify hon (by decide)).2
  exact htext (Option.some.inj hspelling).symm

/-- A spread of a fragment is read where it stands, in front of another selection or the end of its
set. -/
theorem gives_fragmentSpread {name : Token} {directives : List Directive} {span : Span}
    (h : (Part.node (.selection (.fragmentSpread name directives span))).LaidOut σ g k k')
    (hnext : k'.ahead ∈ [.curlyClose, .name, .period]) :
    (spread nested).Gives k k' fun s => s.map g = .fragmentSpread name directives span := by
  obtain ⟨⟨hname, hon⟩, ⟨_, hrule, hitems⟩, hspans⟩ := h.node
  have hspan := hspans span rfl
  cases hrule with
  | fragmentSpread =>
    obtain ⟨hdots, h₁⟩ := hitems.terminal
    obtain ⟨k₂, htoken, hdirectives⟩ := h₁.part
    have hk₁ := hname.ahead_eq htoken
    obtain ⟨hlaid, -, -⟩ := htoken.token
    rw [hname.terminal_eq] at hlaid
    have hnext' (ls : List Lexeme) (hls : ∀ l ∈ [.curlyClose, .name, .period], l ∉ ls) :
        k'.ahead ∉ ls := hls _ hnext
    have hknown : k₂.ahead ≠ .unknown :=
      hdirectives.ahead_ne (by simp) (by simpa using hnext' [.unknown] (by decide))
    refine Gives.spanned ((gives_spreadDots hdots ?_).bind fun _ _ => ?_)
    · rw [hk₁]
      decide
    refine Gives.keyword_bind ?_
    rw [if_neg (keyword_ne_on hlaid hon)]
    refine Gives.lexeme_bind ?_
    rw [if_pos hk₁]
    refine (gives_name htoken hname hknown).bind fun name' hname' => ?_
    refine (gives_directives hdirectives (hnext' _ (by decide))).bind fun ds hds => Gives.pure ?_
    rw [Selection.map, hname', hds, hspan]

/-- An inline fragment is read where it stands. -/
theorem gives_inlineSpread {typeCondition : Option Token} {directives : List Directive}
    {selections : List Selection} {span : Span} (hnested : GivesSets σ g nested depth)
    (h : (Part.node (.selection (.inlineFragment typeCondition directives selections span))).LaidOut
      σ g k k')
    (hdepth : Selection.setDepth selections ≤ depth) (hnext : k'.ahead ≠ .unknown) :
    (spread nested).Gives k k' fun s =>
      s.map g = .inlineFragment typeCondition directives selections span := by
  obtain ⟨⟨htype, hne⟩, ⟨_, hrule, hitems⟩, hspans⟩ := h.node
  have hspan := hspans span rfl
  cases hrule with
  | inlineFragment =>
    obtain ⟨hdots, h₁⟩ := hitems.terminal
    -- No name is the next lexeme where the directives or the braces start.
    have hstart {k₁ : Cursor} (h₁ : Item.LaidOut σ g (directives.map Directive.item ++
        Item.braced (selections.map Selection.item)) k₁ k') :
        k₁.ahead ∉ [.unknown, .name] := by
      obtain ⟨k₂, hdirectives, hset⟩ := h₁.append
      refine hdirectives.ahead_notMem (by simp) ?_
      rw [List.mem_singleton.mp hset.ahead_mem]
      decide
    cases typeCondition with
    | none =>
      have hk₁ := hstart h₁
      simp only [List.mem_cons, List.not_mem_nil, or_false, not_or] at hk₁
      refine Gives.spanned ((gives_spreadDots hdots hk₁.1).bind fun _ _ => ?_)
      refine Gives.keyword_bind ?_
      rw [if_neg fun hon => hk₁.2 (Cursor.ahead_eq_name_of_keyword hon (by decide))]
      refine Gives.lexeme_bind ?_
      rw [if_neg hk₁.2]
      refine (gives_inlineFragment hnested h₁ hne hdepth hnext).mono ?_
      rintro _ ⟨ds, ss, rfl, hds, hss⟩
      rw [Selection.map, Selection.mapAll_eq, hds, hss, hspan, Option.map_none]
    | some t =>
      rw [Option.toList_some, List.flatMap_singleton] at h₁
      obtain ⟨hon, h₂⟩ := h₁.terminal
      obtain ⟨k₃, htoken, h₃⟩ := h₂.part
      have hk₃ := hstart h₃
      simp only [List.mem_cons, List.not_mem_nil, or_false, not_or] at hk₃
      have ht := htype t rfl
      refine Gives.spanned ((gives_spreadDots hdots ?_).bind fun _ _ => ?_)
      · rw [hon.ahead]
        decide
      refine Gives.keyword_bind ?_
      rw [hon.keyword_eq, if_pos (by decide)]
      refine (gives_onKeyword hon ?_).bind fun _ _ => ?_
      · rw [ht.ahead_eq htoken]
        decide
      refine (gives_name htoken ht hk₃.1).bind fun t' ht' => ?_
      refine (gives_inlineFragment hnested h₃ hne hdepth hnext).mono ?_
      rintro _ ⟨ds, ss, rfl, hds, hss⟩
      rw [Selection.map, Selection.mapAll_eq, hds, hss, hspan, Option.map_some, ht']

/-- A selection is read where it stands, in front of another or the end of its set. -/
theorem gives_selection {s : Selection} (hnested : GivesSets σ g nested depth)
    (h : (Part.node (.selection s)).LaidOut σ g k k') (hdepth : s.depth ≤ depth)
    (hnext : k'.ahead ∈ [.curlyClose, .name, .period]) :
    (selection nested).Gives k k' fun s' => s'.map g = s := by
  have hknown : k'.ahead ≠ .unknown := by
    intro heq
    rw [heq] at hnext
    exact absurd hnext (by decide)
  obtain ⟨hwf, ⟨items, hrule, hitems⟩, -⟩ := h.node
  refine Gives.lexeme_bind ?_
  cases s with
  | field aliasName name arguments directives selections span =>
    have hahead : k.ahead = .name := by
      cases hrule with
      | field =>
        cases aliasName with
        | none => exact List.mem_singleton.mp (hwf.2.firsts_item ▸ hitems.ahead_mem)
        | some t => exact List.mem_singleton.mp ((hwf.1 t rfl).firsts_item ▸ hitems.ahead_mem)
    rw [if_neg (by rw [hahead]; decide)]
    refine gives_field hnested h (fun hne => ?_) hnext
    unfold Selection.depth at hdepth
    rwa [if_neg (by rw [hne]; decide)] at hdepth
  | fragmentSpread =>
    have hahead : k.ahead = .period := by
      cases hrule with
      | fragmentSpread => exact List.mem_singleton.mp hitems.ahead_mem
    rw [if_pos hahead]
    exact gives_fragmentSpread h hnext
  | inlineFragment =>
    have hahead : k.ahead = .period := by
      cases hrule with
      | inlineFragment => exact List.mem_singleton.mp hitems.ahead_mem
    rw [if_pos hahead]
    exact gives_inlineSpread hnested h hdepth hknown

/-! ## Selection sets -/

theorem takes_braced {allowEmpty : Bool} {item : Production Selection}
    {selections : List Selection}
    (h : Item.LaidOut σ g (Item.braced (selections.map Selection.item)) k k')
    (hne : allowEmpty = false → selections ≠ [])
    (hitem : ∀ s ∈ selections, ∀ k k', (Part.node (.selection s)).LaidOut σ g k k' →
      k'.ahead ∈ [.curlyClose, .name, .period] → item.read.Gives k k' fun s' => s'.map g = s) :
    (braced allowEmpty item).Takes k k' fun ss => ss.map (Selection.map g) = selections := by
  obtain ⟨hopen, h₁⟩ := Item.LaidOut.terminal h
  obtain ⟨k₂, hselections, h₂⟩ := h₁.append
  obtain ⟨hclose, h₃⟩ := h₂.terminal
  obtain rfl := h₃.nil
  have hahead : k₂.ahead = .curlyClose := hclose.ahead
  have hknown := hselections.ahead_ne (l := .unknown) (by simp) (by rw [hahead]; decide)
  refine (gives_expect hopen hknown).bind_takes fun opener _ => ?_
  refine (Production.gives_untilClosing (m := Selection.map g) (S := [.name, .period])
    hselections hahead (fun s _ l hl => hl) (by decide) fun s hs k₁ k₂ hlaid hk₂ =>
      hitem s hs k₁ k₂ hlaid.single hk₂).bind_takes fun ss hss => ?_
  rw [if_neg]
  · exact (takes_advance hclose).map fun _ _ => hss
  · intro hempty
    rw [Bool.and_eq_true, List.isEmpty_iff, Bool.not_eq_true'] at hempty
    refine hne hempty.2 ?_
    rw [← hss, hempty.1, List.map_nil]

/-- A selection set is read where it stands, if its sets nest no deeper than they may. -/
theorem takes_selectionSet {allowEmpty : Bool} {depth : Nat} {selections : List Selection}
    (h : Item.LaidOut σ g (Item.braced (selections.map Selection.item)) k k')
    (hne : allowEmpty = false → selections ≠ [])
    (hdepth : Selection.setDepth selections ≤ depth) :
    (Production.selectionSet allowEmpty depth).read.Takes k k' fun ss =>
      ss.map (Selection.map g) = selections := by
  induction depth generalizing allowEmpty selections k k' with
  | zero =>
    have := Selection.one_le_setDepth selections
    omega
  | succ depth ih =>
    have hdepths := Selection.setDepth_le_iff.mp hdepth
    have hnested : GivesSets σ g (Production.selectionSet false depth).read depth :=
      fun _ _ _ h hne hdepth hnext => (ih h (fun _ => hne) hdepth).gives hnext
    exact takes_braced h hne fun s hs k k' hlaid hk' =>
      gives_selection hnested hlaid (hdepths s hs) hk'

end Reader

end GraphQLSyntax
