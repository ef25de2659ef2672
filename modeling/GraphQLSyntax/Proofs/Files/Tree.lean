import GraphQLSyntax.Files.Tree
import GraphQLSyntax.Proofs.Files.Path

/-!
# Walks and lookups

* `FileSystem.Coherent`: walks and lookups agree on where there is a file.
* `FileTree.resolve_nofollow`: without following a link at the end, a lookup finds that link, or
  what it finds otherwise.
* `FileTree.le_length_of_visits`: below a path there are no shorter ones.
* `FileTree.Named.coherent`: the walks and lookups of a tree agree.
-/

namespace GraphQLSyntax

/-- A walk that starts at a file meets that file and nothing else, and a walk that meets a file
where it starts has started at one. -/
structure FileSystem.Coherent (files : FileSystem) : Prop where
  walk_eq : ∀ path, files.isFile path = true → files.walk path = [.entry path true]
  isFile_eq : ∀ path, .entry path true ∈ files.walk path → files.isFile path = true

namespace FileTree

variable (t : FileTree)

/-! ## Lookups -/

/-- What a name in front leads to. -/
theorem resolve_named {follow : Bool} {hops : Nat} {directory : Location} {name : String}
    {rest : List String} (hname : ¬(name = "" ∨ name = ".")) (hup : name ≠ "..") :
    t.resolve follow hops directory (name :: rest) =
      match t.node? (directory ++ [name]) with
      | none => .error .notFound
      | some .directory => t.resolve follow hops (directory ++ [name]) rest
      | some (.file bytes) =>
        if rest = [] then .ok (directory ++ [name], .file bytes) else .error .notADirectory
      | some (.link target) =>
        if rest = [] ∧ !follow then .ok (directory ++ [name], .link target)
        else
          match hops with
          | 0 => .error .tooManyLinks
          | hops + 1 => t.resolve follow hops directory (Path.names target ++ rest) := by
  rw [resolve, if_neg hname]
  exact if_neg hup

/-- A lookup that does not follow a link at the end finds that link, or what it finds otherwise. -/
theorem resolve_nofollow (hops : Nat) (directory : Location) (names : List String) :
    t.resolve false hops directory names = t.resolve true hops directory names ∨
      ∃ location target, t.resolve false hops directory names = .ok (location, .link target) := by
  fun_induction resolve t true hops directory names with
  | case1 => exact .inl (by rw [resolve])
  | case2 hops directory name rest hname ih =>
    rw [resolve, if_pos hname]
    exact ih
  | case3 hops directory rest hname ih =>
    rw [resolve, if_neg hname, if_pos rfl]
    exact ih
  | case4 hops directory name rest hname hup location hnode =>
    rw [t.resolve_named hname hup, hnode]
    exact .inl rfl
  | case5 hops directory name rest hname hup location hnode ih =>
    rw [t.resolve_named hname hup, hnode]
    exact ih
  | case6 hops directory name hname hup location bytes hnode =>
    rw [t.resolve_named hname hup, hnode]
    exact .inl rfl
  | case7 hops directory name rest hname hup location bytes hnode hrest =>
    rw [t.resolve_named hname hup, hnode]
    exact .inl (if_neg hrest)
  | case8 hops directory name rest hname hup location target hnode hend =>
    cases hend.2
  | case9 directory name rest hname hup location target hnode =>
    rw [t.resolve_named hname hup, hnode]
    dsimp only
    split
    · exact .inr ⟨_, _, rfl⟩
    · exact .inl rfl
  | case10 directory name rest hname hup location target hnode hend hops ih =>
    rw [t.resolve_named hname hup, hnode]
    dsimp only
    split
    · exact .inr ⟨_, _, rfl⟩
    · exact ih

/-- A lookup that follows links finds none. -/
theorem resolve_ne_link (hops : Nat) (directory : Location) (names : List String)
    (location : Location) (target : String) :
    t.resolve true hops directory names ≠ .ok (location, .link target) := by
  fun_induction resolve t true hops directory names with
  | case1 => simp
  | case2 _ _ _ _ _ ih => exact ih
  | case3 _ _ _ _ ih => exact ih
  | case4 => simp
  | case5 _ _ _ _ _ _ _ _ ih => exact ih
  | case6 => simp
  | case7 => simp
  | case8 _ _ _ _ _ _ _ _ _ hend => cases hend.2
  | case9 => simp
  | case10 _ _ _ _ _ _ _ _ _ _ ih => exact ih

theorem lookup_nofollow (path : String) : t.lookup false path = t.lookup true path ∨
    ∃ location target, t.lookup false path = .ok (location, .link target) := by
  unfold lookup
  split
  · exact .inl rfl
  · exact t.resolve_nofollow _ _ _

theorem lookup_ne_link (path : String) (location : Location) (target : String) :
    t.lookup true path ≠ .ok (location, .link target) := by
  unfold lookup
  split
  · simp
  · exact t.resolve_ne_link _ _ _ _ _

theorem isFile_iff {path : String} :
    t.isFile path = true ↔ ∃ location bytes, t.lookup true path = .ok (location, .file bytes) := by
  unfold isFile
  split
  · rename_i location bytes h
    exact iff_of_true rfl ⟨location, bytes, h⟩
  · rename_i hnot
    refine iff_of_false Bool.false_ne_true ?_
    rintro ⟨location, bytes, h⟩
    exact hnot location bytes h

/-! ## Walks -/

/-- Every entry of a directory has a name. -/
def Named (t : FileTree) : Prop := ∀ entry ∈ t.entries, "" ∉ entry.1

instance : Decidable t.Named :=
  inferInstanceAs (Decidable (∀ entry ∈ t.entries, "" ∉ entry.1))

theorem Named.child_ne_empty {t : FileTree} (h : t.Named) {location : Location} {name : String}
    {node : FileNode} (hchild : (name, node) ∈ t.children location) : name ≠ "" := by
  obtain ⟨⟨at_, node'⟩, hentry, hname⟩ := List.mem_filterMap.mp hchild
  obtain ⟨name', hlast, hname⟩ := Option.bind_eq_some_iff.mp hname
  split at hname
  · cases hname
    rintro rfl
    exact h _ hentry (List.mem_of_getLast? hlast)
  · cases hname

/-- What is met at a path and below it has no shorter path. -/
theorem le_length_of_visits {fuel : Nat} {ancestors : List (Location × String)} {path : String}
    {location : Location} {node : FileNode} {met : String} {isFile : Bool} (hnamed : t.Named)
    (h : .entry met isFile ∈ t.visits fuel ancestors path location node) :
    path.length ≤ met.length := by
  induction fuel generalizing ancestors path location node with
  | zero => cases h
  | succ fuel ih =>
    cases node with
    | file bytes =>
      cases List.mem_singleton.mp h
      exact Nat.le_refl _
    | directory =>
      obtain hhead | hbelow := List.mem_cons.mp h
      · cases hhead
        exact Nat.le_refl _
      · obtain ⟨⟨name, node⟩, hchild, hmet⟩ := List.mem_flatMap.mp hbelow
        have hlonger := Path.length_child path (hnamed.child_ne_empty hchild)
        have hlength := ih hmet
        omega
    | link target =>
      rw [visits] at h
      split at h
      · cases List.mem_singleton.mp h
      · split at h
        · cases List.mem_singleton.mp h
        · exact ih h
      · cases List.mem_singleton.mp h
        exact Nat.le_refl _

/-- A walk goes down far enough to meet where it starts, what that is linked to and an entry. -/
theorem exists_maxDepth : ∃ fuel, t.maxDepth = fuel + 2 := by
  refine ⟨t.maxDepth - 2, ?_⟩
  have hdepth : 2 * 3 ≤ t.maxDepth := Nat.mul_le_mul (Nat.le_add_left 2 _) (Nat.le_add_left 3 _)
  omega

variable {t : FileTree}

/-- The path of a directory is that of no file at or below it. -/
theorem Named.not_mem_visits_directory (hnamed : t.Named) {fuel : Nat}
    {ancestors : List (Location × String)} {path : String} {location : Location} :
    .entry path true ∉ t.visits fuel ancestors path location .directory := by
  cases fuel with
  | zero => exact List.not_mem_nil
  | succ fuel =>
    intro h
    obtain hhead | hbelow := List.mem_cons.mp h
    · cases hhead
    · obtain ⟨⟨name, node⟩, hchild, hmet⟩ := List.mem_flatMap.mp hbelow
      have hlonger := Path.length_child path (hnamed.child_ne_empty hchild)
      have hlength := t.le_length_of_visits hnamed hmet
      omega

/-- **Walks and lookups agree on where there is a file.** -/
theorem Named.coherent (hnamed : t.Named) : t.toFileSystem.Coherent where
  walk_eq path h := by
    obtain ⟨location, bytes, hfile⟩ := t.isFile_iff.mp h
    obtain ⟨fuel, hfuel⟩ := t.exists_maxDepth
    change t.walk path = _
    unfold walk
    obtain hsame | ⟨link, target, hlink⟩ := t.lookup_nofollow path
    · rw [hsame, hfile, hfuel]
      rfl
    · rw [hlink, hfuel]
      dsimp only
      rw [visits, hfile]
  isFile_eq path h := by
    refine t.isFile_iff.mpr ?_
    change .entry path true ∈ t.walk path at h
    unfold walk at h
    obtain ⟨fuel, hfuel⟩ := t.exists_maxDepth
    split at h
    · cases List.mem_singleton.mp h
    · rename_i location node hfound
      cases node with
      | file bytes =>
        obtain hsame | ⟨link, target, hlink⟩ := t.lookup_nofollow path
        · exact ⟨location, bytes, hsame ▸ hfound⟩
        · cases hlink.symm.trans hfound
      | directory => exact absurd h hnamed.not_mem_visits_directory
      | link target =>
        rw [hfuel, visits] at h
        split at h
        · cases List.mem_singleton.mp h
        · split at h
          · cases List.mem_singleton.mp h
          · exact absurd h hnamed.not_mem_visits_directory
        · rename_i reached node hdirectory hreached
          cases node with
          | file bytes => exact ⟨reached, bytes, hreached⟩
          | directory => exact absurd rfl hdirectory
          | link target => exact absurd hreached (t.lookup_ne_link path reached target)

end FileTree

end GraphQLSyntax
