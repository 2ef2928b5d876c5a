import TreeShell.Proofs.PointUpdate

/-!
# Creating nodes

A creation succeeds when its path is free: the segments before the last lead to a directory that has
no child named by the last. It is then a point update of the file system. A creation that fails says
why: first what is wrong with the source of a copy, then whether the path is taken or its parent
missing.
-/

namespace TreeShell

namespace FileSystem

open Node

/-! ## Adding a node at a path -/

theorem lookup_eq_none_iff_not_mem {leaf : String} {children : List (String × Node)} :
    children.lookup leaf = none ↔ leaf ∉ children.map Prod.fst := by
  rw [List.lookup_eq_none_iff]
  constructor
  · intro h hmem
    obtain ⟨child, hchild, rfl⟩ := List.mem_map.mp hmem
    exact absurd (h child hchild) (by simp)
  · intro h child hchild
    rw [bne_iff_ne]
    rintro rfl
    exact h (List.mem_map_of_mem hchild)

theorem children?_eq_none_iff {fs : FileSystem} {names : List String} :
    fs.children? names = none ↔ fs.view names ≠ some .directory := by
  rw [view, ne_eq, view_eq_directory_iff, not_exists]
  simp only [← children?_eq_some_iff]
  exact Option.eq_none_iff_forall_ne_some

/-- A path is free for a new node: its segments before the last lead to a directory, and that has no
child that is named by the last. -/
def IsFree (fs : FileSystem) (path : String) : Prop :=
  ∃ parent leaf children, Path.segments path = parent ++ [leaf] ∧
    fs.children? parent = some children ∧ leaf ∉ children.map Prod.fst

/-- A path is taken: it names the root, or something is there. -/
def IsTaken (fs : FileSystem) (path : String) : Prop :=
  Path.segments path = [] ∨ fs.view (Path.segments path) ≠ none

/-- The segments of a path before the last do not lead to a directory. -/
def LacksParent (fs : FileSystem) (path : String) : Prop :=
  ∃ parent leaf, Path.segments path = parent ++ [leaf] ∧ fs.view parent ≠ some .directory

theorem isFree_iff {fs : FileSystem} {path : String} :
    fs.IsFree path ↔ ∃ parent leaf, Path.segments path = parent ++ [leaf] ∧
      fs.view parent = some .directory ∧ fs.view (parent ++ [leaf]) = none := by
  have hview {parent : List String} {leaf : String} {children : List (String × Node)}
      (hchildren : fs.children? parent = some children) :
      fs.view (parent ++ [leaf]) = none ↔ leaf ∉ children.map Prod.fst := by
    rw [view_child_eq_none_iff hchildren, lookup_eq_none_iff_not_mem]
  constructor
  · rintro ⟨parent, leaf, children, hsegments, hchildren, hleaf⟩
    exact ⟨parent, leaf, hsegments,
      view_eq_directory_iff.mpr ⟨children, children?_eq_some_iff.mp hchildren⟩,
      (hview hchildren).mpr hleaf⟩
  · rintro ⟨parent, leaf, hsegments, hparent, hleaf⟩
    obtain ⟨children, hwalk⟩ := view_eq_directory_iff.mp hparent
    have hchildren : fs.children? parent = some children := children?_eq_some_iff.mpr hwalk
    exact ⟨parent, leaf, children, hsegments, hchildren, (hview hchildren).mp hleaf⟩

/-- A path is free if nothing is there and a directory is above it. -/
theorem isFree_iff_view {fs : FileSystem} {path : String} :
    fs.IsFree path ↔ fs.view (Path.segments path) = none ∧
      fs.view (Path.segments path).dropLast = some .directory := by
  rw [isFree_iff]
  constructor
  · rintro ⟨parent, leaf, hsegments, hparent, hleaf⟩
    rw [hsegments, List.dropLast_concat]
    exact ⟨hleaf, hparent⟩
  · rintro ⟨hleaf, hparent⟩
    have hne : Path.segments path ≠ [] := by
      intro hnil
      rw [hnil, view_nil] at hleaf
      exact absurd hleaf (by simp)
    refine ⟨(Path.segments path).dropLast, (Path.segments path).getLast hne, ?_, hparent, ?_⟩
    · exact (List.dropLast_append_getLast hne).symm
    · rwa [List.dropLast_append_getLast hne]

theorem not_isTaken_of_isFree {fs : FileSystem} {path : String} (h : fs.IsFree path) :
    ¬ fs.IsTaken path := by
  obtain ⟨parent, leaf, hsegments, -, hleaf⟩ := isFree_iff.mp h
  rintro (hroot | htaken)
  · rw [hsegments] at hroot
    exact absurd hroot (by simp)
  · rw [hsegments] at htaken
    exact htaken hleaf

theorem not_lacksParent_of_isFree {fs : FileSystem} {path : String} (h : fs.IsFree path) :
    ¬ fs.LacksParent path := by
  obtain ⟨parent, leaf, hsegments, hparent, -⟩ := isFree_iff.mp h
  rintro ⟨other, last, hother, hlacks⟩
  obtain ⟨rfl, -⟩ := List.append_inj' (hsegments.symm.trans hother) rfl
  exact hlacks hparent

theorem not_lacksParent_of_isTaken {fs : FileSystem} {path : String} (h : fs.IsTaken path) :
    ¬ fs.LacksParent path := by
  rintro ⟨parent, leaf, hsegments, hlacks⟩
  rcases h with hroot | htaken
  · rw [hsegments] at hroot
    exact absurd hroot (by simp)
  · rw [hsegments] at htaken
    obtain ⟨shown, hshown⟩ := Option.ne_none_iff_exists'.mp htaken
    exact hlacks (view_eq_directory_of_append hshown (by simp))

/-- Adding a node fails at a taken path and below a missing parent, and succeeds at a free path. -/
theorem add_cases (fs : FileSystem) (path : String) (new : Node) (operation : String) :
    (fs.IsTaken path ∧
      fs.add path new operation = .error { obstacle := .alreadyExists, path, operation }) ∨
    (fs.LacksParent path ∧
      fs.add path new operation = .error { obstacle := .parentMissing, path, operation }) ∨
    (fs.IsFree path ∧ ∃ parent leaf after, Path.segments path = parent ++ [leaf] ∧
      fs.root.storeAt? leaf new parent = some after.root ∧ after.source = fs.source ∧
      fs.add path new operation = .ok after) := by
  rw [add]
  split
  · next hsplit => exact Or.inl ⟨Or.inl (Path.splitParent_eq_none_iff.mp hsplit), rfl⟩
  · next parent leaf hsplit =>
    have hsegments := Path.splitParent_eq_some_iff.mp hsplit
    split
    · next hchildren =>
      exact Or.inr (Or.inl ⟨⟨parent, leaf, hsegments, children?_eq_none_iff.mp hchildren⟩, rfl⟩)
    · next children hchildren =>
      split
      · next htaken =>
        refine Or.inl ⟨Or.inr ?_, rfl⟩
        rw [hsegments, ne_eq, view_child_eq_none_iff hchildren]
        exact Option.isSome_iff_ne_none.mp htaken
      · next hvacant =>
        rw [Bool.not_eq_true, Option.isSome_eq_false_iff, Option.isNone_iff_eq_none] at hvacant
        obtain ⟨root, hroot⟩ := exists_storeAt? (children?_eq_some_iff.mp hchildren)
        obtain ⟨-, others, -, hdirectory⟩ := exists_directory_of_storeAt? hroot
        have hofRoot := ofRoot_of_isDirectory root fs.source (by rw [hdirectory]; rfl)
        have hfree : fs.IsFree path :=
          ⟨parent, leaf, children, hsegments, hchildren, lookup_eq_none_iff_not_mem.mp hvacant⟩
        rw [hroot]
        exact Or.inr (Or.inr ⟨hfree, parent, leaf, ofRoot root fs.source, hsegments,
          by rw [hofRoot.1, hroot], hofRoot.2, rfl⟩)

section Adding

variable {fs after : FileSystem} {path operation : String} {new : Node} {failure : Failure}

theorem exists_add_eq_ok_iff :
    (∃ after, fs.add path new operation = .ok after) ↔ fs.IsFree path := by
  rcases fs.add_cases path new operation with ⟨htaken, hadd⟩ | ⟨hlacks, hadd⟩ | ⟨hfree, hadd⟩
  · refine iff_of_false ?_ fun hfree => not_isTaken_of_isFree hfree htaken
    simp [hadd]
  · refine iff_of_false ?_ fun hfree => not_lacksParent_of_isFree hfree hlacks
    simp [hadd]
  · obtain ⟨-, -, after, -, -, -, hok⟩ := hadd
    exact iff_of_true ⟨after, hok⟩ hfree

theorem add_eq_error_iff :
    fs.add path new operation = .error failure ↔
      (fs.IsTaken path ∧ failure = { obstacle := .alreadyExists, path, operation }) ∨
      (fs.LacksParent path ∧ failure = { obstacle := .parentMissing, path, operation }) := by
  rcases fs.add_cases path new operation with ⟨htaken, hadd⟩ | ⟨hlacks, hadd⟩ | ⟨hfree, hadd⟩
  · have hparent := not_lacksParent_of_isTaken htaken
    simp [hadd, htaken, hparent, eq_comm]
  · have htaken : ¬ fs.IsTaken path := fun h => not_lacksParent_of_isTaken h hlacks
    simp [hadd, htaken, hlacks, eq_comm]
  · obtain ⟨-, -, after, -, -, -, hok⟩ := hadd
    simp [hok, not_isTaken_of_isFree hfree, not_lacksParent_of_isFree hfree]

theorem pointUpdate_of_add (h : fs.add path new operation = .ok after)
    (hbare : ∀ name names, new.walk? (name :: names) = none) :
    ∃ parent leaf, Path.segments path = parent ++ [leaf] ∧
      PointUpdate fs parent leaf new after := by
  rcases fs.add_cases path new operation with ⟨-, hadd⟩ | ⟨-, hadd⟩ | ⟨hfree, hadd⟩
  · simp [hadd] at h
  · simp [hadd] at h
  · obtain ⟨parent, leaf, other, hsegments, hstore, hsource, hok⟩ := hadd
    obtain rfl : other = after := by simpa [hok] using h
    obtain ⟨front, last, hfront, -, hvacant⟩ := isFree_iff.mp hfree
    rw [← hfront, hsegments] at hvacant
    exact ⟨parent, leaf, hsegments, pointUpdate_of_storeAt? hstore hvacant hbare hsource⟩

theorem exists_storeAt?_of_add (h : fs.add path new operation = .ok after) :
    ∃ parent leaf, Path.segments path = parent ++ [leaf] ∧
      fs.root.storeAt? leaf new parent = some after.root := by
  rcases fs.add_cases path new operation with ⟨-, hadd⟩ | ⟨-, hadd⟩ | ⟨-, hadd⟩
  · simp [hadd] at h
  · simp [hadd] at h
  · obtain ⟨parent, leaf, other, hsegments, hstore, -, hok⟩ := hadd
    obtain rfl : other = after := by simpa [hok] using h
    exact ⟨parent, leaf, hsegments, hstore⟩

end Adding

/-! ## The creating operations -/

/-- One of the operations that create a node. -/
inductive Creation where
  /-- Makes an empty directory. -/
  | directory (path : String)
  /-- Makes a file. -/
  | file (path content : String)
  /-- Makes a file with the content of the file at `source`. -/
  | copy (source path : String)
  deriving DecidableEq, Repr

namespace Creation

/-- The path of the new node. -/
def target : Creation → String
  | directory path | file path _ | copy _ path => path

/-- What the operation is called in a failure. -/
def operation : Creation → String
  | directory _ => "mkdir"
  | file _ _ => "open"
  | copy _ _ => "copyfile"

/-- Carries out the operation. -/
def run (fs : FileSystem) : Creation → Except Failure FileSystem
  | directory path => fs.makeDirectory path
  | file path content => fs.makeFile path content
  | copy source path => fs.copyFile source path

/-- The file system after the operation was tried: a failure has none to put in its place. -/
def result (fs : FileSystem) (creation : Creation) : FileSystem :=
  match creation.run fs with
  | .ok after => after
  | .error _ => fs

/-- The node to be created. A copy has one only if its source is a file. -/
def product? (fs : FileSystem) : Creation → Option Node
  | directory _ => some .empty
  | file _ content => some (.file content)
  | copy source _ =>
    match fs.view (Path.segments source) with
    | some (.file content) => some (.file content)
    | _ => none

/-- What is wrong with the source of a copy. -/
def SourceFault (fs : FileSystem) (creation : Creation) (failure : Failure) : Prop :=
  ∃ source path, creation = copy source path ∧
    (fs.view (Path.segments source) = some .directory ∧
        failure = { obstacle := .isADirectory, path := source, operation := "copyfile" } ∨
      fs.view (Path.segments source) = none ∧
        failure = { obstacle := .sourceMissing, path := source, operation := "copyfile" })

theorem exists_sourceFault_iff {fs : FileSystem} {creation : Creation} :
    (∃ failure, creation.SourceFault fs failure) ↔ creation.product? fs = none := by
  cases creation with
  | directory path => simp [SourceFault, product?]
  | file path content => simp [SourceFault, product?]
  | copy source path =>
    cases hview : fs.view (Path.segments source) with
    | none => simp [SourceFault, product?, hview]
    | some shown => cases shown <;> simp [SourceFault, product?, hview]

/-- An operation adds the node it is to create, if there is one. -/
theorem run_eq_add {fs : FileSystem} {creation : Creation} {new : Node}
    (h : creation.product? fs = some new) :
    creation.run fs = fs.add creation.target new creation.operation := by
  cases creation with
  | directory path => rw [← Option.some.inj h]; rfl
  | file path content => rw [← Option.some.inj h]; rfl
  | copy source path =>
    rw [product?] at h
    split at h
    · next content hview =>
      rw [run, copyFile, read_eq_ok_iff.mpr hview, ← Option.some.inj h]
      rfl
    · exact absurd h (by simp)

theorem product?_copy_eq_some_iff {fs : FileSystem} {source path : String} {new : Node} :
    (copy source path).product? fs = some new ↔
      ∃ content, fs.view (Path.segments source) = some (.file content) ∧ new = .file content := by
  rw [product?]
  split
  · next content hview => simp [hview, eq_comm]
  · next hother =>
    refine iff_of_false (by simp) ?_
    rintro ⟨content, hview, -⟩
    exact hother content hview

/-- Nothing is below a new node. -/
theorem walk?_product? {fs : FileSystem} {creation : Creation} {new : Node}
    (h : creation.product? fs = some new) (name : String) (names : List String) :
    new.walk? (name :: names) = none := by
  cases creation with
  | directory path => rw [← Option.some.inj h]; rfl
  | file path content => rw [← Option.some.inj h]; rfl
  | copy source path =>
    rw [product?] at h
    split at h
    · rw [← Option.some.inj h]; rfl
    · exact absurd h (by simp)

/-- Without a node to create, a copy reports its source. -/
theorem run_eq_error_iff_sourceFault {fs : FileSystem} {creation : Creation} {failure : Failure}
    (h : creation.product? fs = none) :
    creation.run fs = .error failure ↔ creation.SourceFault fs failure := by
  cases creation with
  | directory path => exact absurd h (by simp [product?])
  | file path content => exact absurd h (by simp [product?])
  | copy source path =>
    rw [run, copyFile, read_eq]
    cases hview : fs.view (Path.segments source) with
    | none => simp [SourceFault, hview, eq_comm]
    | some shown =>
      cases shown with
      | file content => simp [product?, hview] at h
      | directory => simp [SourceFault, hview, eq_comm]

theorem exists_run_eq_ok_iff {fs : FileSystem} {creation : Creation} :
    (∃ after, creation.run fs = .ok after) ↔
      fs.IsFree creation.target ∧ ∃ new, creation.product? fs = some new := by
  cases hproduct : creation.product? fs with
  | none =>
    obtain ⟨failure, hfault⟩ := exists_sourceFault_iff.mpr hproduct
    have hrun := (run_eq_error_iff_sourceFault hproduct).mpr hfault
    simp [hrun]
  | some new =>
    rw [run_eq_add hproduct, exists_add_eq_ok_iff]
    exact ⟨fun hfree => ⟨hfree, new, rfl⟩, And.left⟩

/-- An operation that succeeds updates the file system at its target. -/
theorem pointUpdate_of_run {fs after : FileSystem} {creation : Creation}
    (h : creation.run fs = .ok after) :
    ∃ new parent leaf, creation.product? fs = some new ∧
      Path.segments creation.target = parent ++ [leaf] ∧ PointUpdate fs parent leaf new after := by
  obtain ⟨-, new, hproduct⟩ := exists_run_eq_ok_iff.mp ⟨after, h⟩
  rw [run_eq_add hproduct] at h
  obtain ⟨parent, leaf, hsegments, hupdate⟩ := pointUpdate_of_add h (walk?_product? hproduct)
  exact ⟨new, parent, leaf, hproduct, hsegments, hupdate⟩

/-- An operation that succeeds stores its node in the tree. -/
theorem exists_storeAt?_of_run {fs after : FileSystem} {creation : Creation}
    (h : creation.run fs = .ok after) :
    ∃ new parent leaf, creation.product? fs = some new ∧
      Path.segments creation.target = parent ++ [leaf] ∧
      fs.root.storeAt? leaf new parent = some after.root := by
  obtain ⟨-, new, hproduct⟩ := exists_run_eq_ok_iff.mp ⟨after, h⟩
  rw [run_eq_add hproduct] at h
  obtain ⟨parent, leaf, hsegments, hstore⟩ := exists_storeAt?_of_add h
  exact ⟨new, parent, leaf, hproduct, hsegments, hstore⟩

/-- A fault of the source is reported first, then that the target is taken or has no parent. -/
theorem run_eq_error_iff {fs : FileSystem} {creation : Creation} {failure : Failure} :
    creation.run fs = .error failure ↔
      creation.SourceFault fs failure ∨
      (∃ new, creation.product? fs = some new) ∧
        (fs.IsTaken creation.target ∧
            failure = ⟨.alreadyExists, creation.target, creation.operation⟩ ∨
          fs.LacksParent creation.target ∧
            failure = ⟨.parentMissing, creation.target, creation.operation⟩) := by
  cases hproduct : creation.product? fs with
  | none => simp [run_eq_error_iff_sourceFault hproduct]
  | some new =>
    have hfault : ¬ creation.SourceFault fs failure := by
      intro hsource
      have hnone := exists_sourceFault_iff.mp ⟨failure, hsource⟩
      rw [hproduct] at hnone
      exact absurd hnone (by simp)
    rw [run_eq_add hproduct, add_eq_error_iff]
    simp [hfault]

end Creation

/-- The creating operations update the file system at one point. They succeed just when their path
is free and, for a copy, the source is a file. The new node is then found at every path with the
segments of the target, and every other path shows what it showed. A failure is determined: a copy
looks at its source first; a path that is taken is reported as such, and any other by its parent. A
failure leaves the tree as it was: the functions that create check everything before the one place
where they insert, and so a failure hands no tree on. -/
theorem creation_is_point_update (fs : FileSystem) (creation : Creation) :
    ((∃ after, creation.run fs = .ok after) ↔
      fs.IsFree creation.target ∧ ∃ new, creation.product? fs = some new) ∧
    (∀ after, creation.run fs = .ok after →
      ∃ new parent leaf, creation.product? fs = some new ∧
        Path.segments creation.target = parent ++ [leaf] ∧ PointUpdate fs parent leaf new after ∧
        (∀ path, Path.segments path = Path.segments creation.target →
          after.node? path = some new) ∧
        (∀ path, Path.segments path ≠ Path.segments creation.target →
          (after.node? path).map surface = (fs.node? path).map surface)) ∧
    (∀ failure, creation.run fs = .error failure ↔
      creation.SourceFault fs failure ∨
      (∃ new, creation.product? fs = some new) ∧
        (fs.IsTaken creation.target ∧
            failure = ⟨.alreadyExists, creation.target, creation.operation⟩ ∨
          fs.LacksParent creation.target ∧
            failure = ⟨.parentMissing, creation.target, creation.operation⟩)) ∧
    (∀ failure, creation.run fs = .error failure → creation.result fs = fs) := by
  refine ⟨Creation.exists_run_eq_ok_iff, ?_, fun _ => Creation.run_eq_error_iff, ?_⟩
  · intro after hrun
    obtain ⟨new, parent, leaf, hproduct, hsegments, hupdate⟩ := Creation.pointUpdate_of_run hrun
    refine ⟨new, parent, leaf, hproduct, hsegments, hupdate, ?_, ?_⟩
    · intro path hpath
      rw [node?_eq_walk?, hpath, hsegments, hupdate.walk?_eq]
    · intro path hpath
      have hview := congrFun hupdate.view_eq (Path.segments path)
      rw [← hsegments, Function.update_of_ne hpath] at hview
      rw [node?_eq_walk?, node?_eq_walk?]
      exact hview
  · intro failure hrun
    rw [Creation.result, hrun]

end FileSystem

end TreeShell
