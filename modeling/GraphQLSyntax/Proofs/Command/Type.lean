import GraphQLSyntax.Command.Type
import GraphQLSyntax.Proofs.Grammar.Spread
import GraphQLSyntax.Proofs.Tree.Mask

/-!
# Types there and back

* `TypeRef.report`: what is printed of a type, in terms of the flags of its levels.
* `TypeRef.describeType_eq`: what the command prints of an accepted text.
* `TypeRef.round_trip`: what is written of a type is read, and what is read was written.
-/

namespace GraphQLSyntax

namespace TypeRef

/-- A line for each level of a type, the outermost first. -/
def levels (name : String) (lists : Nat) (flags : Nat → Bool) : List String :=
  (List.range (lists + 1)).map fun level =>
    "  level " ++ toString level ++ ": " ++ (if flags level then "non-null" else "nullable") ++ " "
      ++ (if level < lists then "list" else "`" ++ name ++ "`")

/-- What is printed of a type. -/
def report (name : String) (lists mask : Nat) (flags : Nat → Bool) : String :=
  "name: " ++ name ++ "\nlist dimensions: " ++ toString lists ++ "\nnullability: 0b" ++
    String.ofList (Nat.toDigits 2 mask) ++ "\n" ++ "\n".intercalate (levels name lists flags)

variable {text : String} {t : TypeRef}

/-- The command prints the flags of the levels that there are. -/
theorem describeType_eq (h : parse text = .ok t) {flags : Nat → Bool}
    (hflags : ∀ level ≤ t.dimensions, t.isNonNullAt level = flags level) :
    Command.describeType text =
      .ok (.succeeded (report t.name.text t.dimensions t.mask flags) []) := by
  have hlines : t.levelLines = levels t.name.text t.dimensions flags := by
    refine List.map_congr_left fun level hlevel => ?_
    rw [hflags level (Nat.le_of_lt_succ (List.mem_range.mp hlevel))]
  unfold Command.describeType
  rw [h]
  dsimp only
  rw [description, hlines, report]

/-- **Types round trip.** Write the name of a type between the brackets of up to 63 lists, with an
exclamation mark at each level that is flagged, and ignorable characters before any of these: this
is parsed as that type, which ends at the last of them. Its mask and the lines that are printed of
it have the flags of its levels.

Conversely, in an accepted text of fewer than `2 ^ 32` bytes, both kinds of bracket count the lists
of the type outside comments, and its mask has a bit for as many lists as are left open in front of
an exclamation mark. These are never more than 63. -/
theorem round_trip :
    (∀ (name : String) (lists : Nat) (flags : Nat → Bool) (cs behind : List Char),
      Lexical.IsName name.toList → lists ≤ 63 → Spread (tokens name lists flags) cs →
      Gap behind [] →
      ∃ t, parse (String.ofList (cs ++ behind)) = .ok t ∧ t.name.text = name ∧
        t.dimensions = lists ∧
        (∀ level, t.mask.testBit level = (decide (level ≤ lists) && flags level)) ∧
        (∀ level, t.isNonNullAt level = (decide (level ≤ lists) && flags level)) ∧
        t.span.stop.byteOffset = Text.byteLength cs ∧
        Command.describeType (String.ofList (cs ++ behind)) =
          .ok (.succeeded (report name lists t.mask flags) [])) ∧
    ∀ (text : String) (t : TypeRef), Text.byteLength text.toList < 2 ^ 32 → parse text = .ok t →
      let code := Text.withoutComments text.toList
      code.count '[' = t.dimensions ∧ code.count ']' = t.dimensions ∧
        (∀ level, t.mask.testBit level = true ↔ ∃ before after, code = before ++ '!' :: after ∧
          before.count '[' = before.count ']' + level) ∧
        (∀ before after, code = before ++ '!' :: after →
          ∃ shift ≤ 63, before.count '[' = before.count ']' + shift) ∧
        Command.describeType text =
          .ok (.succeeded (report t.name.text t.dimensions t.mask t.mask.testBit) []) := by
  refine ⟨fun name lists flags cs behind hname hlists hspread hbehind => ?_,
    fun text t hsize hparse => ?_⟩
  · obtain ⟨t, hparse, rfl, hwrapping, hstop⟩ :=
      parse_spread hname (Nat.lt_succ_of_le hlists) hspread hbehind
    obtain rfl : t.dimensions = lists := by
      rw [dimensions, hwrapping, Wrapping.dimensions_ofFlags]
    have hmarks (level : Nat) :
        t.wrapping.isNonNullAt level = (decide (level ≤ t.dimensions) && flags level) := by
      rw [hwrapping, Wrapping.isNonNullAt_ofFlags]
    have hflags (level : Nat) :
        t.isNonNullAt level = (decide (level ≤ t.dimensions) && flags level) :=
      (isNonNullAt_eq (Nat.lt_succ_of_le hlists) level).trans (hmarks level)
    refine ⟨t, hparse, rfl, rfl, fun level => ?_, hflags, hstop, describeType_eq hparse ?_⟩
    · rw [← hmarks]
      exact t.wrapping.testBit_mask level
    · intro level hlevel
      rw [hflags, decide_eq_true hlevel, Bool.true_and]
  · obtain ⟨hopen, hclose, hmarks, hshift⟩ := outside_of_parse hsize hparse
    have hbits (level : Nat) : t.mask.testBit level = t.isNonNullAt level := by
      rw [isNonNullAt_eq (dimensions_lt_of_parse hparse)]
      exact t.wrapping.testBit_mask level
    refine ⟨hopen, hclose, fun level => ?_, hshift, describeType_eq hparse fun level _ => ?_⟩
    · rw [← hmarks, hbits]
    · exact (hbits level).symm

/-- A list of lists, marked as a whole and at its name. -/
theorem round_trip_sample : ∃ t, parse "[ ,[Int!]\n]\t! # ]!" = .ok t ∧ t.dimensions = 2 ∧
    t.mask.testBit 1 = false ∧ t.mask.testBit 2 = true ∧ t.isNonNullAt 64 = false ∧
    t.span.stop.byteOffset = 13 ∧
    (Text.withoutComments "[ ,[Int!]\n]\t! # ]!".toList).count ']' = 2 ∧
    Command.describeType "[ ,[Int!]\n]\t! # ]!" = .ok (.succeeded
      ("name: Int\nlist dimensions: 2\nnullability: 0b101\n  level 0: non-null list\n" ++
        "  level 1: nullable list\n  level 2: non-null `Int`") []) := by
  have hspread : Spread (tokens "Int" 2 (· != 1)) "[ ,[Int!]\n]\t!".toList :=
    .cons [] (by simp) (.cons [' ', ','] (by simp [Lexical.isIgnorable]) (.cons [] (by simp)
      (.cons [] (by simp) (.cons [] (by simp) (.cons ['\n'] (by simp [Lexical.isIgnorable])
        (.cons ['\t'] (by simp [Lexical.isIgnorable]) .nil))))))
  have hcomment : Gap ('#' :: ([' ', ']', '!'] ++ [])) [] :=
    .comment (by simp [Text.isLineBreak]) (by simp) (.nil [])
  have hbehind : Gap " # ]!".toList [] := .ignorable (by decide) hcomment
  obtain ⟨hwritten, hread⟩ := round_trip
  obtain ⟨t, hparse, -, hlists, hmask, hflags, hstop, hprinted⟩ :=
    hwritten "Int" 2 (· != 1) _ _ (by decide) (by decide) hspread hbehind
  obtain ⟨-, hclose, -, -, -⟩ := hread _ t (by decide) hparse
  have hmask' : (parse "[ ,[Int!]\n]\t! # ]!").map mask = .ok 5 := by decide +kernel
  have hfive : t.mask = 5 := by
    rw [show parse "[ ,[Int!]\n]\t! # ]!" = .ok t from hparse] at hmask'
    exact Except.ok.inj hmask'
  refine ⟨t, hparse, hlists, hmask 1, hmask 2, hflags 64, hstop, hclose.trans hlists, ?_⟩
  rw [hfive] at hprinted
  refine hprinted.trans (congrArg (fun stdout => Except.ok (Outcome.succeeded stdout [])) ?_)
  decide +kernel

end TypeRef

end GraphQLSyntax
