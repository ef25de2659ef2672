import Mathlib.Data.List.Basic
import GraphQLSyntax.Command.Parse
import GraphQLSyntax.Files.Tree
import GraphQLSyntax.Proofs.Tree.Fields

/-!
# What comes of reading files

* `FileSystem.document?`, `FileSystem.refusal?`, `FileSystem.fault?`: what the file at a path is, or
  why it is nothing.
* `FileResult.ofFile_cases`: what is reported of a file, one case for each of these.
* `Collection.faults_ofRequest`: the faults of a collection are those that the walks met.
* `Command.parseFiles_eq`: the command, by whether anything goes wrong.
* `Command.outcome_parseFiles`: what it prints, and how little of that `quiet` changes.
-/

namespace GraphQLSyntax

namespace Outcome

variable (stdout stderr : String) (log : List LogLine)

@[simp] theorem success_succeeded : (succeeded stdout log).success = true := rfl

@[simp] theorem stdout_succeeded : (succeeded stdout log).stdout = some stdout := rfl

@[simp] theorem stderr_succeeded : (succeeded stdout log).stderr = none := rfl

@[simp] theorem success_failed : (failed stdout stderr log).success = false := rfl

@[simp] theorem stdout_failed :
    (failed stdout stderr log).stdout = if stdout = "" then none else some stdout := rfl

@[simp] theorem stderr_failed : (failed stdout stderr log).stderr = some stderr := rfl

end Outcome

/-! ## What a file is -/

namespace FileSystem

variable (files : FileSystem) (path : String)

/-- The document that the file at a path is. -/
def document? : Option Document :=
  (files.read path).toOption.bind fun text => (Document.parse text).toOption

/-- The text of the file at a path and what is wrong with it, where it is a text but no document. -/
def refusal? : Option (String × SyntaxError) :=
  match files.read path with
  | .error _ => none
  | .ok text =>
    match Document.parse text with
    | .ok _ => none
    | .error e => some (text, e)

/-- The diagnostic of the file at a path, where there is one. It may be impossible to lay out. -/
def diagnostic? : Option (Except Layout.Failure String) :=
  (files.refusal? path).map fun (text, e) => (e.inFile path).diagnostic (some text)

/-- Why the file at a path cannot be read as a text. -/
def fault? : Option FileFault :=
  match files.read path with
  | .error fault => some fault
  | .ok _ => none

/-- The reading of the file at a path comes to an end: its diagnostic can be laid out. -/
def Returns : Prop := ∀ laidOut ∈ files.diagnostic? path, ∃ text, laidOut = .ok text

/-- What the document that the file at a path is contains. -/
def summary? : Option DocumentSummary :=
  (files.document? path).map fun d => ⟨d.operations.length, d.fragments.length, d.outline.fields⟩

/-- The faults that the walks from some paths meet. -/
def walkFaults (paths : List String) : List WalkFault :=
  (paths.flatMap files.walk).filterMap fun
    | .fault fault => some fault
    | .entry _ _ => none

end FileSystem

theorem DocumentSummary.ofDocument_eq (d : Document) :
    ofDocument d = ⟨d.operations.length, d.fragments.length, d.outline.fields⟩ := by
  rw [ofDocument, d.fieldCount_eq_fields]

/-! ## What is reported of a file -/

namespace FileResult

variable (files : FileSystem) (path : String)

/-- A file is a document, has a diagnostic, has one that cannot be laid out, or cannot be read. -/
theorem ofFile_cases :
    (∃ summary, files.summary? path = some summary ∧ files.diagnostic? path = none ∧
      files.fault? path = none ∧ ofFile files path = parsed path summary) ∨
    (∃ text, files.summary? path = none ∧ files.diagnostic? path = some (.ok text) ∧
      files.fault? path = none ∧ ofFile files path = refused text) ∨
    (∃ failure, files.summary? path = none ∧ files.diagnostic? path = some (.error failure) ∧
      files.fault? path = none ∧
      ofFile files path = failed ("parse task for " ++ path ++ " failed: " ++
        files.joinError path)) ∨
    (∃ fault, files.summary? path = none ∧ files.diagnostic? path = none ∧
      files.fault? path = some fault ∧
      ofFile files path = failed ("failed to read " ++ path ++ ": " ++ fault.message)) := by
  unfold FileSystem.summary? FileSystem.document? FileSystem.diagnostic? FileSystem.refusal?
    FileSystem.fault? ofFile ofText
  cases files.read path with
  | error fault => exact .inr (.inr (.inr ⟨fault, rfl, rfl, rfl, rfl⟩))
  | ok text =>
    dsimp only [Except.toOption, Option.bind_some]
    cases Document.parse text with
    | ok d => exact .inl ⟨_, rfl, rfl, rfl, congrArg _ (DocumentSummary.ofDocument_eq d)⟩
    | error e =>
      dsimp only [Option.map_some, Option.map_none]
      cases (e.inFile path).diagnostic (some text) with
      | ok diagnostic => exact .inr (.inl ⟨diagnostic, rfl, rfl, rfl, rfl⟩)
      | error failure => exact .inr (.inr (.inl ⟨failure, rfl, rfl, rfl, rfl⟩))

theorem summary?_ofFile : (ofFile files path).summary? = files.summary? path := by
  rcases ofFile_cases files path with ⟨s, hs, -, -, h⟩ | ⟨t, hs, -, -, h⟩ | ⟨l, hs, -, -, h⟩ |
    ⟨f, hs, -, -, h⟩ <;> rw [h, hs] <;> rfl

theorem reportLine?_ofFile : (ofFile files path).reportLine? =
    (files.summary? path).map (·.reportLine path) := by
  rcases ofFile_cases files path with ⟨s, hs, -, -, h⟩ | ⟨t, hs, -, -, h⟩ | ⟨l, hs, -, -, h⟩ |
    ⟨f, hs, -, -, h⟩ <;> rw [h, hs] <;> rfl

theorem diagnostic?_ofFile : (ofFile files path).diagnostic? =
    (files.diagnostic? path).bind Except.toOption := by
  rcases ofFile_cases files path with ⟨s, -, hd, -, h⟩ | ⟨t, -, hd, -, h⟩ | ⟨l, -, hd, -, h⟩ |
    ⟨f, -, hd, -, h⟩ <;> rw [h, hd] <;> rfl

/-- Only a file that cannot be read has a message, if all diagnostics can be laid out. -/
theorem message?_ofFile (hreturns : files.Returns path) : (ofFile files path).message? =
    (files.fault? path).map fun fault => "failed to read " ++ path ++ ": " ++ fault.message := by
  rcases ofFile_cases files path with ⟨s, -, -, hf, h⟩ | ⟨t, -, -, hf, h⟩ | ⟨l, -, hd, hf, h⟩ |
    ⟨f, -, -, hf, h⟩
  · rw [h, hf]
    rfl
  · rw [h, hf]
    rfl
  · obtain ⟨text, htext⟩ := hreturns _ hd
    cases htext
  · rw [h, hf]
    rfl

/-- Nothing went wrong with a file if it is a document. -/
theorem nothing_wrong_iff : (ofFile files path).diagnostic? = none ∧
    (ofFile files path).message? = none ↔ (files.document? path).isSome := by
  have hdocument : (files.document? path).isSome = (files.summary? path).isSome := by
    rw [FileSystem.summary?, Option.isSome_map]
  rw [hdocument]
  rcases ofFile_cases files path with ⟨s, hs, -, -, h⟩ | ⟨t, hs, -, -, h⟩ | ⟨l, hs, -, -, h⟩ |
    ⟨f, hs, -, -, h⟩ <;> rw [h, hs] <;> simp [diagnostic?, message?]

end FileResult

/-! ## What the walks met -/

namespace Collection

theorem faults_foldl_add (request : ParseRequest) (visits : List Visit) (c : Collection) :
    (visits.foldl (add request) c).faults = c.faults ++ visits.filterMap fun
      | .fault fault => some fault
      | .entry _ _ => none := by
  induction visits generalizing c with
  | nil => exact (List.append_nil _).symm
  | cons visit rest ih =>
    rw [List.foldl_cons, ih]
    cases visit with
    | fault fault =>
      rw [add, List.append_assoc]
      rfl
    | entry path isFile =>
      have hadd : (add request c (.entry path isFile)).faults = c.faults := by
        cases isFile with
        | false => rfl
        | true =>
          rw [add]
          split <;> rfl
      rw [hadd]
      rfl

/-- The faults of a collection are those that the walks met. -/
theorem faults_ofRequest (files : FileSystem) (request : ParseRequest) :
    (ofRequest files request).1.faults = files.walkFaults request.paths := by
  have hvisits : (ofVisits request (request.paths.flatMap files.walk)).faults =
      files.walkFaults request.paths := by
    rw [ofVisits, faults_foldl_add]
    rfl
  unfold ofRequest
  dsimp only
  split <;> exact hvisits

end Collection

/-! ## What some documents contain together -/

namespace DocumentSummary

theorem foldl_add (summaries : List DocumentSummary) (a : DocumentSummary) :
    summaries.foldl add a = ⟨a.operations + (summaries.map (·.operations)).sum,
      a.fragments + (summaries.map (·.fragments)).sum,
      a.fields + (summaries.map (·.fields)).sum⟩ := by
  induction summaries generalizing a with
  | nil => rfl
  | cons s rest ih =>
    rw [List.foldl_cons, ih, add]
    simp only [List.map_cons, List.sum_cons, Nat.add_assoc]

theorem total_eq (summaries : List DocumentSummary) : total summaries =
    ⟨(summaries.map (·.operations)).sum, (summaries.map (·.fragments)).sum,
      (summaries.map (·.fields)).sum⟩ := by
  rw [total, foldl_add]
  simp only [Nat.zero_add]

theorem reportLine_ne_empty (path : String) (s : DocumentSummary) : s.reportLine path ≠ "" := by
  rw [reportLine, ne_eq, String.append_eq_empty_iff]
  exact fun h => absurd h.2 (by decide)

end DocumentSummary

/-! ## The command -/

namespace Command

/-- An entry of a report about a file or a path. -/
def errorEntry (message : String) : String := "error: " ++ message ++ "\n"

/-- The last line of a report about what went wrong. -/
def closingLine (failures files : Nat) : String :=
  Outcome.cross ++ " " ++ toString failures ++ " of " ++ toString files ++ " files failed to parse."

theorem successReport_eq (report : String) (files skipped : Nat) (total : DocumentSummary) :
    successReport report files skipped total = report ++ successReport "" files skipped total := by
  unfold successReport
  simp only [String.append_assoc, String.empty_append]

theorem failureReport_append (diagnostics faults failures : List String) (files : Nat) :
    failureReport diagnostics (faults ++ failures) files = "\n".intercalate diagnostics ++
      String.join (faults.map errorEntry) ++ String.join (failures.map errorEntry) ++
      closingLine (diagnostics.length + faults.length + failures.length) files := by
  have hentry : (fun message => "error: " ++ message ++ "\n") = errorEntry := rfl
  rw [failureReport, hentry, List.map_append, String.join_append, List.length_append]
  simp only [closingLine, String.append_assoc, Nat.add_assoc]

theorem join_eq_empty_iff {lines : List String} (h : ∀ line ∈ lines, line ≠ "") :
    String.join lines = "" ↔ lines = [] := by
  cases lines with
  | nil => exact iff_of_true rfl rfl
  | cons line rest =>
    have hne := h line (by simp)
    simp [String.join_cons, hne]

variable (files : FileSystem) (request : ParseRequest)

/-- The files that a request collects. -/
def collected : List String := (Collection.ofRequest files request).1.files

/-- Nothing goes wrong: the walks meet no fault, and every collected file is a document. -/
def GoesWell : Prop := files.walkFaults request.paths = [] ∧
  ∀ path ∈ collected files request, (files.document? path).isSome

instance : Decidable (GoesWell files request) :=
  inferInstanceAs (Decidable (files.walkFaults request.paths = [] ∧
    ∀ path ∈ collected files request, (files.document? path).isSome))

/-- The lines of the documents among the collected files. -/
def summaryLines : List String :=
  (collected files request).filterMap fun path => (files.summary? path).map (·.reportLine path)

/-- The report of a run in which nothing went wrong, without the lines of its files. -/
def totals : String :=
  let documents := (collected files request).filterMap files.document?
  successReport "" (collected files request).length (Collection.ofRequest files request).1.skipped
    ⟨(documents.map fun d => d.operations.length).sum,
      (documents.map fun d => d.fragments.length).sum, (documents.map fun d => d.outline.fields).sum⟩

/-- The report of a run in which something went wrong: the diagnostics of files, then the faults of
the walks, then the files that cannot be read. -/
def errorReport : String :=
  let diagnostics := (collected files request).filterMap fun path =>
    (files.diagnostic? path).bind Except.toOption
  let faults := (files.walkFaults request.paths).map WalkFault.message
  let unreadable := (collected files request).filterMap fun path =>
    (files.fault? path).map fun fault => "failed to read " ++ path ++ ": " ++ fault.message
  "\n".intercalate diagnostics ++ String.join (faults.map errorEntry) ++
    String.join (unreadable.map errorEntry) ++
    closingLine (diagnostics.length + faults.length + unreadable.length)
      (collected files request).length

/-! ## From the results of files to reports -/

/-- The results of the collected files. -/
def results : List FileResult := (collected files request).map (FileResult.ofFile files)

/-- The report of a run in which something went wrong, as it is put together from the results. -/
def failures : String :=
  failureReport ((results files request).filterMap FileResult.diagnostic?)
    ((files.walkFaults request.paths).map WalkFault.message ++
      (results files request).filterMap FileResult.message?) (collected files request).length

theorem filterMap_results {α : Type} (f : FileResult → Option α) :
    (results files request).filterMap f =
      (collected files request).filterMap fun path => f (FileResult.ofFile files path) :=
  List.filterMap_map

theorem goesWell_iff : (results files request).filterMap FileResult.diagnostic? = [] ∧
    (files.walkFaults request.paths).map WalkFault.message ++
      (results files request).filterMap FileResult.message? = [] ↔ GoesWell files request := by
  have hfiles : (results files request).filterMap FileResult.diagnostic? = [] ∧
      (results files request).filterMap FileResult.message? = [] ↔
        ∀ path ∈ collected files request, (files.document? path).isSome := by
    rw [filterMap_results, filterMap_results, List.filterMap_eq_nil_iff,
      List.filterMap_eq_nil_iff, ← forall₂_and]
    simp only [FileResult.nothing_wrong_iff]
  rw [GoesWell, ← hfiles, List.append_eq_nil_iff, List.map_eq_nil_iff]
  exact and_left_comm

theorem totals_eq : totals files request = successReport "" (collected files request).length
    (Collection.ofRequest files request).1.skipped
    (.total ((results files request).filterMap FileResult.summary?)) := by
  have hsummaries : (results files request).filterMap FileResult.summary? =
      ((collected files request).filterMap files.document?).map fun d =>
        ⟨d.operations.length, d.fragments.length, d.outline.fields⟩ := by
    rw [filterMap_results, List.map_filterMap]
    simp only [FileResult.summary?_ofFile]
    rfl
  rw [hsummaries, DocumentSummary.total_eq, List.map_map, List.map_map, List.map_map]
  rfl

theorem summaryLines_eq : summaryLines files request =
    (results files request).filterMap FileResult.reportLine? := by
  rw [filterMap_results]
  simp only [FileResult.reportLine?_ofFile]
  rfl

theorem errorReport_eq (hreturns : ∀ path ∈ collected files request, files.Returns path) :
    errorReport files request = failures files request := by
  have hmessages : (results files request).filterMap FileResult.message? =
      (collected files request).filterMap fun path => (files.fault? path).map fun fault =>
        "failed to read " ++ path ++ ": " ++ fault.message := by
    rw [filterMap_results]
    exact List.filterMap_congr fun path hpath =>
      FileResult.message?_ofFile files path (hreturns path hpath)
  rw [failures, failureReport_append, hmessages, filterMap_results]
  simp only [FileResult.diagnostic?_ofFile]
  rfl

/-- Every file that is a document has a line, unless there are to be none. -/
theorem join_reportLines_eq_empty_iff {lines : List String}
    (h : ∀ line ∈ lines, line ∈ summaryLines files request) :
    String.join lines = "" ↔ lines = [] := by
  refine join_eq_empty_iff fun line hline => ?_
  obtain ⟨path, -, hpath⟩ := List.mem_filterMap.mp (h line hline)
  obtain ⟨s, -, rfl⟩ := Option.map_eq_some_iff.mp hpath
  exact s.reportLine_ne_empty path

/-- The command, by whether anything goes wrong. -/
theorem parseFiles_eq : parseFiles files request =
    let report := String.join (if request.quiet then [] else summaryLines files request)
    let log := Collection.log files request ++
      (collected files request).flatMap (FileResult.log files)
    if GoesWell files request then .succeeded (report ++ totals files request) log
    else .failed report (failures files request) log := by
  have hreport : (if request.quiet then "" else
      String.join ((results files request).filterMap FileResult.reportLine?)) =
        String.join (if request.quiet then [] else summaryLines files request) := by
    rw [summaryLines_eq]
    split <;> rfl
  dsimp only
  rw [← hreport, totals_eq, ← successReport_eq, failures, ← Collection.faults_ofRequest]
  refine if_congr ?_ rfl rfl
  rw [← goesWell_iff, ← Collection.faults_ofRequest]
  rfl

/-! ## Without the lines of files -/

variable (quiet : Bool)

theorem collected_quiet :
    collected files { request with quiet := quiet } = collected files request := rfl

theorem totals_quiet : totals files { request with quiet := quiet } = totals files request := by
  unfold totals
  rw [collected_quiet]
  rfl

theorem failures_quiet :
    failures files { request with quiet := quiet } = failures files request := by
  unfold failures results
  rw [collected_quiet]

/-- Without the lines of files, a command that goes well prints the totals. -/
theorem parseFiles_quiet : parseFiles files { request with quiet := true } =
    let log := Collection.log files { request with quiet := true } ++
      (collected files request).flatMap (FileResult.log files)
    if GoesWell files request then .succeeded (totals files request) log
    else .failed "" (failures files request) log := by
  rw [parseFiles_eq, totals_quiet, failures_quiet, collected_quiet]
  exact if_congr Iff.rfl (congrArg (Outcome.succeeded · _) String.empty_append) rfl

/-- **What comes of reading files.** The command succeeds if the walks meet no fault and every
collected file is a document. It then prints a line for each file, and the totals over all of them.
Otherwise it prints the lines of the files that are documents, and the diagnostics of those that are
none; then the faults of the walks, and the files that cannot be read. Without the lines nothing
else changes. -/
theorem outcome_parseFiles :
    ((parseFiles files request).success ↔ files.walkFaults request.paths = [] ∧
      ∀ path ∈ collected files request, (files.document? path).isSome) ∧
    let outcome := parseFiles files request
    let quiet := parseFiles files { request with quiet := true }
    let lines := if request.quiet then [] else summaryLines files request
    (outcome.success → outcome.stderr = none ∧
      outcome.stdout = some (String.join lines ++ totals files request)) ∧
    (outcome.success = false →
      outcome.stdout = (if lines = [] then none else some (String.join lines)) ∧
      ((∀ path ∈ collected files request, files.Returns path) →
        outcome.stderr = some (errorReport files request))) ∧
    quiet.success = outcome.success ∧ quiet.stderr = outcome.stderr ∧
    quiet.stdout = if outcome.success then some (totals files request) else none := by
  have hlines : String.join (if request.quiet then [] else summaryLines files request) = "" ↔
      (if request.quiet then [] else summaryLines files request) = [] := by
    refine join_reportLines_eq_empty_iff files request ?_
    split <;> simp
  dsimp only
  rw [parseFiles_eq, parseFiles_quiet]
  by_cases h : GoesWell files request
  · simp only [if_pos h, Outcome.success_succeeded, Outcome.stdout_succeeded,
      Outcome.stderr_succeeded]
    refine ⟨iff_of_true trivial h, fun _ => ⟨trivial, trivial⟩, ?_, trivial, trivial,
      (if_pos trivial).symm⟩
    rintro ⟨⟩
  · simp only [if_neg h, Outcome.success_failed, Outcome.stdout_failed, Outcome.stderr_failed]
    refine ⟨iff_of_false Bool.false_ne_true h, ?_, fun _ => ⟨if_congr hlines rfl rfl, ?_⟩, trivial,
      trivial, ?_⟩
    · rintro ⟨⟩
    · intro hreturns
      rw [errorReport_eq files request hreturns]
    · rfl

/-- A document, a text that is none, a file that is no text, and a path with nothing at it. -/
def sampleFiles : FileSystem where
  walk path :=
    if path = "d" then [.entry "d" false, .entry "d/a.gql" true, .entry "d/b.gql" true,
      .entry "d/c.gql" true, .entry "d/d" true]
    else [.fault (.inaccessible path .notFound)]
  isFile _ := false
  read path :=
    if path = "d/a.gql" then .ok "\x7b a \x7b b \x7d ... \x7b c \x7d \x7d"
    else if path = "d/b.gql" then .ok "\x7b" else .error .notText
  joinError _ := "task panicked"

def sampleRequest : ParseRequest := ⟨["d", "e"], ["gql"], false⟩

theorem outcome_parseFiles_sample :
    (∀ path ∈ collected sampleFiles sampleRequest, sampleFiles.Returns path) ∧
    (parseFiles sampleFiles sampleRequest).success = false ∧
    (parseFiles sampleFiles sampleRequest).stdout =
      some (Outcome.check ++ " d/a.gql: 1 operations, 0 fragments, 3 fields\n") ∧
    (parseFiles sampleFiles sampleRequest).stderr =
      some ("error: unexpected \"EOF\"\n  --> d/b.gql:1:2\n   |\n 1 | \x7b\n   |  ^\n" ++
        "   = note: `\x7b` opened here\n      1 | \x7b\n        | -\n" ++
        "error: IO error for operation on e: No such file or directory (os error 2): " ++
        "No such file or directory (os error 2)\n" ++
        "error: failed to read d/c.gql: stream did not contain valid UTF-8\n" ++
        Outcome.cross ++ " 3 of 3 files failed to parse.") := by
  have hreturns : ∀ path ∈ collected sampleFiles sampleRequest, sampleFiles.Returns path := by
    have hlaid : ∀ path ∈ collected sampleFiles sampleRequest,
        ∀ laidOut ∈ sampleFiles.diagnostic? path, laidOut.isOk := by
      decide +kernel
    intro path hpath laidOut hmem
    cases laidOut with
    | ok text => exact ⟨text, rfl⟩
    | error failure => cases hlaid path hpath _ hmem
  have hfailed : (parseFiles sampleFiles sampleRequest).success = false := by decide +kernel
  obtain ⟨-, -, hwrong, -⟩ := outcome_parseFiles sampleFiles sampleRequest
  obtain ⟨hstdout, hstderr⟩ := hwrong hfailed
  refine ⟨hreturns, hfailed, hstdout.trans ?_, (hstderr hreturns).trans ?_⟩ <;> decide +kernel

end Command

end GraphQLSyntax
