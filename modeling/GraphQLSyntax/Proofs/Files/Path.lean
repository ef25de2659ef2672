import GraphQLSyntax.Files.Path
import GraphQLSyntax.Proofs.Text.Pieces

/-!
# Names and extensions of files

* `Path.HasExtension`: what follows the last dot of the name of a file.
* `Path.extension?_eq_some_iff`: that is the extension which is looked up.
* `Path.length_child`: the path of an entry is longer than that of its directory.
-/

namespace GraphQLSyntax.Path

open Text

/-- The name of a file has a dot, but not only in front, and `extension` follows the last one. -/
def HasExtension (path : String) (extension : List Char) : Prop :=
  ∃ name stem, fileName? path = some name ∧ name.toList = stem ++ '.' :: extension ∧ stem ≠ [] ∧
    '.' ∉ extension

/-- A text with a dot has a last one. -/
theorem exists_last_dot {cs : List Char} (h : '.' ∈ cs) :
    ∃ stem extension, cs = stem ++ '.' :: extension ∧ '.' ∉ extension := by
  obtain ⟨behind, front, hcs, hbehind⟩ := List.eq_append_cons_of_mem (List.mem_reverse.mpr h)
  refine ⟨front.reverse, behind.reverse, ?_, by simpa using hbehind⟩
  rw [← List.reverse_reverse cs, hcs]
  simp

variable {path name : String} {stem extension : List Char}

theorem extension?_of_dot (hname : fileName? path = some name)
    (h : name.toList = stem ++ '.' :: extension) (hstem : stem ≠ [])
    (hextension : '.' ∉ extension) : extension? path = some (String.ofList extension) := by
  unfold extension?
  rw [hname, Option.bind_some, h, split_append_cons hextension, List.reverse_append,
    List.reverse_singleton, List.singleton_append]
  split
  · rename_i hnil
    exact absurd (List.reverse_eq_nil_iff.mp (List.cons.inj hnil).2) (split_ne_nil _ _)
  · rename_i hempty
    have hsplit := List.reverse_eq_iff.mp (List.cons.inj hempty).2
    exact absurd (split_eq_singleton_nil_iff.mp hsplit) hstem
  · rename_i hlast
    rw [(List.cons.inj hlast).1]
  · rename_i hnone
    cases hnone

theorem extension?_of_leading_dot (hname : fileName? path = some name)
    (h : name.toList = '.' :: extension) (hextension : '.' ∉ extension) :
    extension? path = none := by
  unfold extension?
  rw [hname, Option.bind_some, h, ← List.nil_append ('.' :: extension),
    split_append_cons hextension]
  rfl

theorem extension?_of_no_dot (hname : fileName? path = some name) (h : '.' ∉ name.toList) :
    extension? path = none := by
  unfold extension?
  rw [hname, Option.bind_some, split_eq_splitOn, List.splitOn_eq_singleton h]
  rfl

/-- **What follows the last dot of a name is its extension**, unless that dot stands in front. -/
theorem extension?_eq_some_iff {extension : String} :
    extension? path = some extension ↔ HasExtension path extension.toList := by
  constructor
  · intro h
    cases hname : fileName? path with
    | none =>
      rw [extension?, hname] at h
      cases h
    | some name =>
      by_cases hdot : '.' ∈ name.toList
      · obtain ⟨stem, behind, hsplit, hbehind⟩ := exists_last_dot hdot
        by_cases hstem : stem = []
        · subst hstem
          rw [extension?_of_leading_dot hname hsplit hbehind] at h
          cases h
        · rw [extension?_of_dot hname hsplit hstem hbehind, Option.some.injEq] at h
          subst h
          exact ⟨name, stem, hname, by rw [String.toList_ofList, hsplit], hstem,
            by rwa [String.toList_ofList]⟩
      · rw [extension?_of_no_dot hname hdot] at h
        cases h
  · rintro ⟨name, stem, hname, hsplit, hstem, hextension⟩
    rw [extension?_of_dot hname hsplit hstem hextension, String.ofList_toList]

theorem length_child (path : String) {name : String} (h : name ≠ "") :
    path.length < (child path name).length := by
  have hname : 0 < name.length := by
    rw [← String.length_toList]
    exact List.length_pos_iff.mpr (by simpa using h)
  unfold child
  split <;> simp only [String.length_append] <;> omega

end GraphQLSyntax.Path
