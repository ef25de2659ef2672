import Mathlib
import GraphQLSyntax.Proofs.Command.Parse
import GraphQLSyntax.Proofs.Files.Tree
import GraphQLSyntax.Proofs.Text.Digits
import GraphQLSyntax.Proofs.Text.OneLine
import GraphQLSyntax.Proofs.Text.Pieces

/-!
# The last line about what went wrong

* `SyntaxError.ended_diagnostic`: a diagnostic is made of whole lines.
* `FileResult.length_wrong`: a file that is no document is reported once.
* `Command.failures_eq`: a report about what went wrong is made of whole lines and a closing one.
* `Command.last_line_parseFiles`: the closing line counts the files that are no documents, and the
  faults of the walks along with them.
-/

namespace GraphQLSyntax

open Text

/-! ## Diagnostics -/

namespace Layout

variable {α β : Type}

theorem bind_eq_ok {x : Except Failure α} {f : α → Except Failure β} {b : β}
    (h : x >>= f = .ok b) : ∃ a, x = .ok a ∧ f a = .ok b := by
  cases x with
  | error failure => cases h
  | ok a => exact ⟨a, rfl, h⟩

/-- Whatever is laid out of the members of a list has a property that each of them has. -/
theorem forall_mem_of_mapM {f : α → Except Failure β} {p : β → Prop} {as : List α} {bs : List β}
    (hf : ∀ a b, f a = .ok b → p b) (h : as.mapM f = .ok bs) : ∀ b ∈ bs, p b := by
  induction as generalizing bs with
  | nil =>
    cases h
    simp
  | cons a as ih =>
    rw [List.mapM_cons] at h
    obtain ⟨b, hb, h⟩ := bind_eq_ok h
    obtain ⟨rest, hrest, h⟩ := bind_eq_ok h
    cases h
    exact List.forall_mem_cons.mpr ⟨hf a b hb, ih hrest⟩

end Layout

open Layout (bind_eq_ok)

theorem Note.ended_snippet {source text : String} {s : Span} (h : snippet source s = .ok text) :
    Ended text := by
  unfold snippet at h
  split at h
  · cases h
    exact .inl rfl
  · obtain ⟨indent, -, h⟩ := bind_eq_ok h
    obtain rfl := Except.ok.inj h
    exact .dash _

theorem Note.ended_render {source : Option String} {note : Note} {text : String}
    (h : note.render source = .ok text) : Ended text := by
  unfold render at h
  split at h
  · obtain ⟨shown, hshown, h⟩ := bind_eq_ok h
    obtain rfl := Except.ok.inj h
    exact (Ended.lineFeed _).append (ended_snippet hshown)
  · obtain rfl := Except.ok.inj h
    exact (Ended.lineFeed _).append (.inl rfl)

namespace SyntaxError

theorem ended_snippet {e : SyntaxError} {source text : String} (h : e.snippet source = .ok text) :
    Ended text := by
  unfold snippet at h
  split at h
  · cases h
    exact .inl rfl
  · obtain ⟨underline, -, h⟩ := bind_eq_ok h
    obtain ⟨indent, -, h⟩ := bind_eq_ok h
    obtain rfl := Except.ok.inj h
    exact .lineFeed _

/-- A diagnostic is made of whole lines. -/
theorem ended_diagnostic {e : SyntaxError} {source : Option String} {text : String}
    (h : e.diagnostic source = .ok text) : Ended text := by
  have hbehind (shown : String) (hshown : Ended shown)
      (h : (e.notes.mapM (Note.render source) >>= fun notes => pure ("error: " ++ e.message ++
        "\n  --> " ++ e.location ++ "\n" ++ shown ++ String.join notes)) = .ok text) :
      Ended text := by
    obtain ⟨notes, hnotes, h⟩ := bind_eq_ok h
    obtain rfl := Except.ok.inj h
    have hended := Layout.forall_mem_of_mapM (p := Ended) (fun _ _ => Note.ended_render) hnotes
    exact ((Ended.lineFeed _).append hshown).append (.join hended)
  unfold diagnostic at h
  split at h
  · obtain ⟨shown, hshown, h⟩ := bind_eq_ok h
    exact hbehind shown (ended_snippet hshown) h
  · exact hbehind "" (.inl rfl) h

end SyntaxError

/-! ## Files that are no documents -/

namespace FileResult

variable (files : FileSystem)

/-- A file is reported once if it is no document, and not at all otherwise. -/
theorem length_wrong (path : String) :
    (ofFile files path).diagnostic?.toList.length + (ofFile files path).message?.toList.length =
      if (files.document? path).isNone then 1 else 0 := by
  have hdocument : (files.document? path).isNone = (files.summary? path).isNone := by
    rw [FileSystem.summary?, Option.isNone_map]
  rw [hdocument]
  rcases ofFile_cases files path with ⟨s, hs, -, -, h⟩ | ⟨t, hs, -, -, h⟩ | ⟨l, hs, -, -, h⟩ |
    ⟨f, hs, -, -, h⟩ <;> rw [h, hs] <;> rfl

theorem length_filterMap_wrong (paths : List String) :
    (paths.filterMap fun path => (ofFile files path).diagnostic?).length +
      (paths.filterMap fun path => (ofFile files path).message?).length =
        paths.countP fun path => (files.document? path).isNone := by
  induction paths with
  | nil => rfl
  | cons path paths ih =>
    have hwrong := length_wrong files path
    rw [List.countP_cons, ← ih, ← hwrong, List.filterMap_cons, List.filterMap_cons]
    cases (ofFile files path).diagnostic? <;> cases (ofFile files path).message? <;>
      simp +arith

theorem ended_diagnostic? {path diagnostic : String}
    (h : (ofFile files path).diagnostic? = some diagnostic) : Ended diagnostic := by
  rw [diagnostic?_ofFile] at h
  obtain ⟨laidOut, hlaidOut, hok⟩ := Option.bind_eq_some_iff.mp h
  obtain ⟨⟨text, e⟩, -, rfl⟩ := Option.map_eq_some_iff.mp hlaidOut
  dsimp only at hok
  cases hshown : (e.inFile path).diagnostic (some text) with
  | ok shown =>
    rw [hshown] at hok
    cases hok
    exact SyntaxError.ended_diagnostic hshown
  | error failure =>
    rw [hshown] at hok
    cases hok

end FileResult

/-! ## The closing line -/

namespace Command

theorem closingLine_inj {a b files : Nat} : closingLine a files = closingLine b files ↔ a = b := by
  unfold closingLine
  rw [String.append_left_inj, String.append_left_inj, String.append_left_inj,
    String.append_right_inj]
  exact ofNat_inj

theorem lineFeed_notMem_closingLine (failures files : Nat) :
    '\n' ∉ (closingLine failures files).toList := by
  have hcross : OneLine (Outcome.cross ++ " ") := by decide
  exact (((hcross.append (.ofNat _)).append (by decide)).append (.ofNat _) |>.append
    (by decide)).lineFeed_notMem

variable (files : FileSystem) (request : ParseRequest)

/-- The number of collected files that are no documents. -/
def wrongFiles : Nat :=
  (collected files request).countP fun path => (files.document? path).isNone

/-- A report about what went wrong is made of whole lines and a closing one. -/
theorem failures_eq : ∃ front, Ended front ∧ failures files request =
    front ++ closingLine ((files.walkFaults request.paths).length + wrongFiles files request)
      (collected files request).length := by
  have hentries (messages : List String) : Ended (String.join (messages.map errorEntry)) :=
    .join (List.forall_mem_map.mpr fun message _ => .lineFeed _)
  have hcount := FileResult.length_filterMap_wrong files (collected files request)
  rw [← filterMap_results, ← filterMap_results] at hcount
  let diagnostics := (results files request).filterMap FileResult.diagnostic?
  let faults := (files.walkFaults request.paths).map WalkFault.message
  let messages := (results files request).filterMap FileResult.message?
  refine ⟨"\n".intercalate diagnostics ++ String.join (faults.map errorEntry) ++
    String.join (messages.map errorEntry), ?_, ?_⟩
  · refine ((Ended.intercalate fun diagnostic hmem => ?_).append (hentries _)).append (hentries _)
    obtain ⟨result, hresult, hdiagnostic⟩ := List.mem_filterMap.mp hmem
    obtain ⟨path, -, rfl⟩ := List.mem_map.mp hresult
    exact FileResult.ended_diagnostic? files hdiagnostic
  · rw [failures, failureReport_append, wrongFiles, ← hcount, List.length_map]
    congr 2
    omega

variable {files request}

/-- The last line of a report about what went wrong. -/
theorem getLast?_pieces_failures (files : FileSystem) (request : ParseRequest) :
    (pieces '\n' (failures files request)).getLast? =
      some (closingLine ((files.walkFaults request.paths).length + wrongFiles files request)
        (collected files request).length) := by
  obtain ⟨front, hfront, hfailures⟩ := failures_eq files request
  rw [hfailures]
  exact getLast?_pieces_of_ended hfront (lineFeed_notMem_closingLine _ _)

theorem stderr_parseFiles_of_failure (h : (parseFiles files request).success = false) :
    ¬ GoesWell files request ∧
      (parseFiles files request).stderr = some (failures files request) := by
  rw [parseFiles_eq] at h ⊢
  by_cases hwell : GoesWell files request
  · simp only [if_pos hwell, Outcome.success_succeeded] at h
    cases h
  · simp only [if_neg hwell]
    exact ⟨hwell, rfl⟩

/-- Where something goes wrong, it is a fault of a walk or a file that is no document. -/
theorem wrong_of_not_goesWell (h : ¬ GoesWell files request) :
    0 < (files.walkFaults request.paths).length + wrongFiles files request := by
  by_contra hnot
  have hfaults : files.walkFaults request.paths = [] := List.length_eq_zero_iff.mp (by omega)
  have hwrong : wrongFiles files request = 0 := by omega
  refine h ⟨hfaults, fun path hpath => ?_⟩
  have hsome := List.countP_eq_zero.mp hwrong path hpath
  rwa [Bool.not_eq_true, Option.isNone_eq_false_iff] at hsome

/-- **The closing line of a run that fails** counts the collected files, and before that the files
that are no documents along with the faults of the walks. It counts nothing but files where the
walks meet no fault. -/
theorem last_line_parseFiles (h : (parseFiles files request).success = false) :
    let wrong := (collected files request).countP fun path => (files.document? path).isNone
    let faults := files.walkFaults request.paths
    let n := (collected files request).length
    wrong ≤ n ∧ 0 < faults.length + wrong ∧
    ∃ report, (parseFiles files request).stderr = some report ∧
      (pieces '\n' report).getLast? = some (closingLine (faults.length + wrong) n) ∧
      ((pieces '\n' report).getLast? = some (closingLine wrong n) ↔ faults = []) := by
  obtain ⟨hwrong, hstderr⟩ := stderr_parseFiles_of_failure h
  have hlast := getLast?_pieces_failures files request
  refine ⟨List.countP_le_length, wrong_of_not_goesWell hwrong, _, hstderr, hlast, ?_⟩
  rw [hlast, Option.some.injEq, closingLine_inj, wrongFiles, Nat.add_eq_right,
    List.length_eq_zero_iff]

/-- A file with an open brace. -/
def braceTree : FileTree := ⟨[(["a.gql"], .file "\x7b".toUTF8)]⟩

def braceRequest (paths : List String) : ParseRequest := ⟨paths, ["gql"], false⟩

theorem walk_brace : braceTree.toFileSystem.walk "a.gql" = [.entry "a.gql" true] := by
  cbv

/-- There is nothing at the other path. -/
theorem walk_missing :
    braceTree.toFileSystem.walk "b" = [.fault (.inaccessible "b" .notFound)] := by
  have hlookup : braceTree.lookup false "b" = .error .notFound := by
    cbv
  show braceTree.walk "b" = _
  rw [FileTree.walk, hlookup]

theorem document?_brace : braceTree.toFileSystem.document? "a.gql" = none := by
  have hread : braceTree.toFileSystem.read "a.gql" = .ok "\x7b" := by
    cbv
  rw [FileSystem.document?, hread]
  decide +kernel

theorem success_parseFiles_brace {paths : List String}
    (hcollected : collected braceTree.toFileSystem (braceRequest paths) = ["a.gql"]) :
    (parseFiles braceTree.toFileSystem (braceRequest paths)).success = false := by
  have hnot : ¬ GoesWell braceTree.toFileSystem (braceRequest paths) := by
    rintro ⟨-, hdocuments⟩
    have hsome := hdocuments "a.gql" (by simp [hcollected])
    rw [document?_brace] at hsome
    cases hsome
  rw [parseFiles_eq]
  simp only [if_neg hnot, Outcome.success_failed]

theorem last_line_parseFiles_brace :
    (parseFiles braceTree.toFileSystem (braceRequest ["a.gql"])).success = false ∧
    ∃ report, (parseFiles braceTree.toFileSystem (braceRequest ["a.gql"])).stderr = some report ∧
      (pieces '\n' report).getLast? =
        some (Outcome.cross ++ " 1 of 1 files failed to parse.") := by
  have hcollected : collected braceTree.toFileSystem (braceRequest ["a.gql"]) = ["a.gql"] := by
    cbv
  have hfaults : braceTree.toFileSystem.walkFaults ["a.gql"] = [] := by
    cbv
  have hfailed := success_parseFiles_brace hcollected
  obtain ⟨-, -, report, hstderr, -, hlast⟩ := last_line_parseFiles hfailed
  refine ⟨hfailed, report, hstderr, (hlast.mpr hfaults).trans ?_⟩
  rw [hcollected, List.countP_singleton, document?_brace]
  decide +kernel

/-- One of the files cannot be parsed and one path has nothing at it: these are two of one file. -/
theorem fault_counts_as_file : ∃ report,
    collected braceTree.toFileSystem (braceRequest ["a.gql", "b"]) = ["a.gql"] ∧
    (parseFiles braceTree.toFileSystem (braceRequest ["a.gql", "b"])).success = false ∧
    (parseFiles braceTree.toFileSystem (braceRequest ["a.gql", "b"])).stderr = some report ∧
    (pieces '\n' report).getLast? = some (Outcome.cross ++ " 2 of 1 files failed to parse.") := by
  have hpaths : (braceRequest ["a.gql", "b"]).paths = ["a.gql", "b"] := rfl
  have hmatching : (braceRequest ["a.gql", "b"]).matching "a.gql" = true := by
    decide +kernel
  have hcollected :
      collected braceTree.toFileSystem (braceRequest ["a.gql", "b"]) = ["a.gql"] := by
    simp [collected, Collection.ofRequest, Collection.ofVisits, Collection.add, hpaths, walk_brace,
      walk_missing, hmatching]
  have hfaults :
      braceTree.toFileSystem.walkFaults ["a.gql", "b"] = [.inaccessible "b" .notFound] := by
    simp [FileSystem.walkFaults, walk_brace, walk_missing]
  have hfailed := success_parseFiles_brace hcollected
  have hlast :=
    getLast?_pieces_failures braceTree.toFileSystem (braceRequest ["a.gql", "b"])
  refine ⟨_, hcollected, hfailed, (stderr_parseFiles_of_failure hfailed).2, hlast.trans ?_⟩
  rw [wrongFiles, hcollected, braceRequest, hfaults, List.countP_singleton, document?_brace]
  decide +kernel

end Command

end GraphQLSyntax
