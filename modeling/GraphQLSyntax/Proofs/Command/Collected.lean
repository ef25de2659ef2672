import Mathlib
import GraphQLSyntax.Proofs.Command.Parse
import GraphQLSyntax.Proofs.Files.Tree

/-!
# Which files are collected

* `FileSystem.walkedFiles`: the files that the walks from some paths meet.
* `ParseRequest.matching_iff`: a file is read because of what follows the last dot of its name.
* `Collection.ofRequest_cases`: a request collects what matches, or its only path.
* `Collection.partitions_walkedFiles`: every file that is met is collected or counted as skipped.
-/

namespace GraphQLSyntax

/-- The path of a file that a walk meets. -/
def Visit.file? : Visit → Option String
  | .entry path true => some path
  | .entry _ false => none
  | .fault _ => none

theorem Visit.filterMap_file?_cons (path : String) (rest : List Visit) :
    (entry path true :: rest).filterMap file? = path :: rest.filterMap file? := rfl

/-- The files that the walks from some paths meet. -/
def FileSystem.walkedFiles (files : FileSystem) (paths : List String) : List String :=
  (paths.flatMap files.walk).filterMap Visit.file?

/-! ## Extensions -/

namespace ParseRequest

/-- The extensions that arguments ask for, as they are given. -/
def configured (extensions : List String) : List String :=
  let given := extensions.flatMap (Text.pieces ',')
  if given = [] then defaultExtensions else given

variable {paths extensions : List String} {quiet : Bool} {request : ParseRequest}

theorem paths_of_ofArguments? (h : ofArguments? paths extensions quiet = some request) :
    request.paths = paths := by
  unfold ofArguments? at h
  split at h
  · cases h
  · cases h
    rfl

theorem extensions_of_ofArguments? (h : ofArguments? paths extensions quiet = some request) :
    request.extensions = ((configured extensions).map withoutDots).eraseDups := by
  unfold ofArguments? at h
  split at h
  · cases h
  · cases h
    rfl

/-- A file is read because of what follows the last dot of its name: it is an extension asked for,
without the dots in front of that. -/
theorem matching_iff (h : ofArguments? paths extensions quiet = some request) {path : String} :
    request.matching path = true ↔ ∃ given ∈ configured extensions,
      Path.HasExtension path (given.toList.dropWhile (· == '.')) := by
  rw [matching, extensions_of_ofArguments? h, Option.any_eq_true]
  constructor
  · rintro ⟨extension, hextension, hmem⟩
    rw [List.contains_iff_mem, List.mem_eraseDups] at hmem
    obtain ⟨given, hgiven, rfl⟩ := List.mem_map.mp hmem
    refine ⟨given, hgiven, ?_⟩
    rw [← String.toList_ofList (l := given.toList.dropWhile _)]
    exact Path.extension?_eq_some_iff.mp hextension
  · rintro ⟨given, hgiven, hextension⟩
    refine ⟨withoutDots given, Path.extension?_eq_some_iff.mpr ?_, ?_⟩
    · rwa [withoutDots, String.toList_ofList]
    · rw [List.contains_iff_mem, List.mem_eraseDups]
      exact List.mem_map_of_mem hgiven

end ParseRequest

/-! ## Files that match and files that do not -/

namespace Collection

variable (files : FileSystem) (request : ParseRequest)

theorem files_foldl_add (visits : List Visit) (c : Collection) :
    (visits.foldl (add request) c).files =
      c.files ++ (visits.filterMap Visit.file?).filter request.matching := by
  induction visits generalizing c with
  | nil => exact (List.append_nil _).symm
  | cons visit rest ih =>
    rw [List.foldl_cons, ih]
    match visit with
    | .fault fault => rfl
    | .entry path false => rfl
    | .entry path true =>
      rw [Visit.filterMap_file?_cons, add]
      by_cases hmatching : request.matching path
      · rw [if_pos hmatching, List.filter_cons_of_pos hmatching, List.append_assoc,
          List.singleton_append]
      · rw [if_neg hmatching, List.filter_cons_of_neg hmatching]

theorem skipped_foldl_add (visits : List Visit) (c : Collection) :
    (visits.foldl (add request) c).skipped =
      c.skipped + (visits.filterMap Visit.file?).countP (!request.matching ·) := by
  induction visits generalizing c with
  | nil => rfl
  | cons visit rest ih =>
    rw [List.foldl_cons, ih]
    match visit with
    | .fault fault => rfl
    | .entry path false => rfl
    | .entry path true =>
      rw [Visit.filterMap_file?_cons, add, List.countP_cons]
      cases request.matching path <;> simp +arith

/-- A request collects the files that match, and skips the others. Where there are none, and its
only path is a file, it collects that. -/
theorem ofRequest_cases :
    (∃ path, request.paths = [path] ∧ files.isFile path = true ∧
      (files.walkedFiles request.paths).filter request.matching = [] ∧
      (ofRequest files request).1.files = [path] ∧ (ofRequest files request).1.skipped = 0) ∨
    ((∀ path, request.paths = [path] → files.isFile path = true →
      (files.walkedFiles request.paths).filter request.matching ≠ []) ∧
      (ofRequest files request).1.files =
        (files.walkedFiles request.paths).filter request.matching ∧
      (ofRequest files request).1.skipped =
        (files.walkedFiles request.paths).countP (!request.matching ·)) := by
  have hfiles : (ofVisits request (request.paths.flatMap files.walk)).files =
      (files.walkedFiles request.paths).filter request.matching :=
    files_foldl_add request _ _
  have hskipped : (ofVisits request (request.paths.flatMap files.walk)).skipped =
      (files.walkedFiles request.paths).countP (!request.matching ·) :=
    (skipped_foldl_add request _ _).trans (Nat.zero_add _)
  unfold ofRequest
  dsimp only
  rw [hfiles]
  split
  · rename_i path honly
    obtain ⟨hnone, honly⟩ := Option.ite_none_right_eq_some.mp honly
    unfold onlyFile? at honly
    split at honly
    · rename_i only hpaths
      obtain ⟨hfile, honly⟩ := Option.ite_none_right_eq_some.mp honly
      cases honly
      exact .inl ⟨path, hpaths, hfile, List.isEmpty_iff.mp hnone, rfl, rfl⟩
    · cases honly
  · rename_i honly
    refine .inr ⟨?_, hfiles, hskipped⟩
    intro path hpaths hfile hnone
    rw [if_pos (List.isEmpty_iff.mpr hnone), hpaths, onlyFile?, if_pos hfile] at honly
    cases honly

end Collection

/-! ## Collecting -/

/-- The walk from a path that is a file meets that file. -/
theorem FileSystem.Coherent.walkedFiles_of_isFile {files : FileSystem} (hfiles : files.Coherent)
    {path : String} (h : files.isFile path = true) : files.walkedFiles [path] = [path] := by
  rw [walkedFiles, List.flatMap_singleton, hfiles.walk_eq path h]
  rfl

theorem FileSystem.Coherent.isFile_of_mem_walkedFiles {files : FileSystem}
    (hfiles : files.Coherent) {path : String} (h : path ∈ files.walkedFiles [path]) :
    files.isFile path = true := by
  rw [walkedFiles, List.flatMap_singleton] at h
  obtain ⟨visit, hvisit, hfile⟩ := List.mem_filterMap.mp h
  match visit with
  | .entry met true =>
    cases hfile
    exact hfiles.isFile_eq path hvisit
  | .entry met false => cases hfile
  | .fault fault => cases hfile

namespace Collection

/-- **Every file that the walks meet is collected or counted as skipped.** If some match, these are
collected, in the order of the walks. A file that does not match is collected where it is the only
path. A fault adds nothing but itself. -/
theorem partitions_walkedFiles {files : FileSystem} {paths extensions : List String}
    {quiet : Bool} {request : ParseRequest} (hfiles : files.Coherent)
    (hrequest : ParseRequest.ofArguments? paths extensions quiet = some request) :
    let collection := (ofRequest files request).1
    let walked := files.walkedFiles paths
    (∀ path, request.matching path = true ↔ ∃ given ∈ ParseRequest.configured extensions,
      Path.HasExtension path (given.toList.dropWhile (· == '.'))) ∧
    ((∃ path ∈ walked, request.matching path = true) →
      collection.files = walked.filter request.matching) ∧
    collection.files.Sublist walked ∧
    collection.files.length + collection.skipped = walked.length ∧
    collection.faults = files.walkFaults paths ∧
    ∀ path ∈ walked, request.matching path = false →
      (path ∈ collection.files ↔ paths = [path]) := by
  dsimp only
  have hpaths := ParseRequest.paths_of_ofArguments? hrequest
  subst hpaths
  refine ⟨fun path => ParseRequest.matching_iff hrequest, ?_⟩
  obtain ⟨only, hpaths, hfile, hnone, hcollected, hskipped⟩ | ⟨hnot, hcollected, hskipped⟩ :=
    ofRequest_cases files request
  · have hwalked : files.walkedFiles request.paths = [only] := by
      rw [hpaths]
      exact hfiles.walkedFiles_of_isFile hfile
    refine ⟨?_, ?_, ?_, faults_ofRequest files request, ?_⟩
    · rintro ⟨path, hmem, hmatching⟩
      exact absurd hmatching (List.filter_eq_nil_iff.mp hnone path hmem)
    · rw [hcollected, hwalked]
    · rw [hcollected, hskipped, hwalked]
      rfl
    · intro path hmem _
      rw [hwalked, List.mem_singleton] at hmem
      subst hmem
      exact iff_of_true (by rw [hcollected]; exact List.mem_singleton_self _) hpaths
  · refine ⟨fun _ => hcollected, ?_, ?_, faults_ofRequest files request, ?_⟩
    · rw [hcollected]
      exact List.filter_sublist
    · rw [hcollected, hskipped, ← List.countP_eq_length_filter,
        List.length_eq_countP_add_countP request.matching]
      simp only [Bool.not_eq_true, Bool.decide_eq_false]
    · intro path hmem hmatching
      refine iff_of_false ?_ ?_
      · rw [hcollected, List.mem_filter, hmatching]
        exact fun h => Bool.false_ne_true h.2
      · intro hpaths
        rw [hpaths] at hmem
        have hfile := hfiles.isFile_of_mem_walkedFiles hmem
        refine hnot path hpaths hfile ?_
        rw [hpaths, hfiles.walkedFiles_of_isFile hfile,
          List.filter_cons_of_neg (by simp [hmatching])]
        rfl

/-- A directory with a link to nothing, a document and a text that is none. -/
def sampleTree : FileTree where
  entries := [(["d"], .directory), (["d", "gone"], .link "e"),
    (["d", "a.gql"], .file "{a}".toUTF8), (["d", "b.txt"], .file "b".toUTF8)]

def sampleRequest : ParseRequest := ⟨["d"], ["gql"], false⟩

theorem walk_sampleTree : sampleTree.toFileSystem.walk "d" = [.entry "d" false,
    .fault (.inaccessible "d/gone" .notFound), .entry "d/a.gql" true, .entry "d/b.txt" true] := by
  have hlookup : sampleTree.lookup false "d" = .ok (["d"], .directory) := by
    cbv
  have hgone : sampleTree.lookup true "d/gone" = .error .notFound := by
    cbv
  have hchildren : sampleTree.children ["d"] = [("gone", .link "e"),
      ("a.gql", .file "{a}".toUTF8), ("b.txt", .file "b".toUTF8)] := by
    cbv
  have hdepth : sampleTree.maxDepth = 42 := rfl
  have hnames : Path.child "d" "gone" = "d/gone" ∧ Path.child "d" "a.gql" = "d/a.gql" ∧
      Path.child "d" "b.txt" = "d/b.txt" := by
    decide +kernel
  show sampleTree.walk "d" = _
  simp [FileTree.walk, hlookup, hdepth, FileTree.visits, hchildren, hnames, hgone]

theorem partitions_walkedFiles_sample :
    sampleTree.toFileSystem.Coherent ∧
    ParseRequest.ofArguments? ["d"] [".gql"] false = some sampleRequest ∧
    sampleTree.toFileSystem.walkedFiles ["d"] = ["d/a.gql", "d/b.txt"] ∧
    (ofRequest sampleTree.toFileSystem sampleRequest).1.files = ["d/a.gql"] ∧
    (ofRequest sampleTree.toFileSystem sampleRequest).1.skipped = 1 ∧
    (ofRequest sampleTree.toFileSystem sampleRequest).1.faults =
      [.inaccessible "d/gone" .notFound] := by
  have hcoherent : sampleTree.toFileSystem.Coherent := FileTree.Named.coherent (by decide)
  have hrequest : ParseRequest.ofArguments? ["d"] [".gql"] false = some sampleRequest := by
    decide +kernel
  have hwalked : sampleTree.toFileSystem.walkedFiles ["d"] = ["d/a.gql", "d/b.txt"] := by
    rw [FileSystem.walkedFiles, List.flatMap_singleton, walk_sampleTree]
    rfl
  have hkept : ["d/a.gql", "d/b.txt"].filter sampleRequest.matching = ["d/a.gql"] := by
    decide +kernel
  obtain ⟨-, hmatching, -, hlength, hfaults, -⟩ := partitions_walkedFiles hcoherent hrequest
  rw [hwalked] at hmatching hlength
  have hfiles := (hmatching ⟨"d/a.gql", by simp, by decide +kernel⟩).trans hkept
  rw [hfiles] at hlength
  exact ⟨hcoherent, hrequest, hwalked, hfiles, by simpa +arith using hlength,
    hfaults.trans (by simp [FileSystem.walkFaults, walk_sampleTree])⟩

end Collection

end GraphQLSyntax
