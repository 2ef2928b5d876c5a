import TreeShell.FileSystem
import TreeShell.Proofs.CanonicalPath

/-!
# What a file system shows

A file system is known by its view: the map that says for a list of names whether it leads to a
file, and with what content, or to a directory, or nowhere. The reading operations walk down the
tree in three ways: `resolveDirectory` name by name, telling a file in the way from a missing name;
`exists?` and `read` through the children of the parent directory. This module shows that each of
them reads the view at the segments of its path, and that their answers therefore agree.
-/

namespace TreeShell

/-- What can be told of a node without looking below it. -/
inductive Surface where
  /-- A file with its content. -/
  | file (content : String)
  /-- A directory. -/
  | directory
  deriving DecidableEq, Repr

namespace Node

/-- The surface of a node. -/
def surface : Node → Surface
  | .file content => .file content
  | .directory _ => .directory

/-- The surface of the node that a list of names leads to. -/
def view (node : Node) (names : List String) : Option Surface := (node.walk? names).map surface

/-! ## Walks -/

theorem children?_eq_some_iff {node : Node} {children : List (String × Node)} :
    node.children? = some children ↔ node = .directory children := by
  cases node with
  | file content => simp [children?]
  | directory others => simp [children?]

theorem walk?_nil (node : Node) : node.walk? [] = some node := by
  rw [walk?]

theorem walk?_cons (node : Node) (name : String) (names : List String) :
    node.walk? (name :: names) =
      (node.children?.bind (·.lookup name)).bind fun child => child.walk? names := by
  cases node with
  | file content => rfl
  | directory children => rw [walk?, children?, Option.bind_some]

theorem walk?_append (node : Node) (front back : List String) :
    node.walk? (front ++ back) = (node.walk? front).bind fun inner => inner.walk? back := by
  induction front generalizing node with
  | nil => rw [List.nil_append, walk?_nil, Option.bind_some]
  | cons name front ih =>
    rw [List.cons_append, walk?_cons, walk?_cons]
    simp only [Option.bind_assoc, ih]

theorem view_nil (node : Node) : node.view [] = some node.surface := by
  rw [view, walk?_nil, Option.map_some]

theorem view_append (node : Node) (front back : List String) :
    node.view (front ++ back) = (node.walk? front).bind fun inner => inner.view back := by
  rw [view, walk?_append, Option.map_bind]
  rfl

theorem view_eq_directory_iff {node : Node} {names : List String} :
    node.view names = some .directory ↔
      ∃ children, node.walk? names = some (.directory children) := by
  rw [view, Option.map_eq_some_iff]
  constructor
  · rintro ⟨inner, hwalk, hsurface⟩
    cases inner with
    | file content => exact absurd hsurface (by simp [surface])
    | directory children => exact ⟨children, hwalk⟩
  · rintro ⟨children, hwalk⟩
    exact ⟨.directory children, hwalk, rfl⟩

theorem view_eq_file_iff {node : Node} {names : List String} {content : String} :
    node.view names = some (.file content) ↔ node.walk? names = some (.file content) := by
  rw [view, Option.map_eq_some_iff]
  constructor
  · rintro ⟨inner, hwalk, hsurface⟩
    cases inner with
    | file other => rwa [← Surface.file.inj hsurface]
    | directory children => exact absurd hsurface (by simp [surface])
  · intro hwalk
    exact ⟨.file content, hwalk, rfl⟩

/-- A walk that goes on goes on from a directory. -/
theorem view_eq_directory_of_append {node : Node} {front back : List String} {shown : Surface}
    (h : node.view (front ++ back) = some shown) (hback : back ≠ []) :
    node.view front = some .directory := by
  obtain ⟨name, names, rfl⟩ := List.exists_cons_of_ne_nil hback
  rw [view_append, Option.bind_eq_some_iff] at h
  obtain ⟨inner, hinner, hview⟩ := h
  cases inner with
  | file content => exact absurd hview (by simp [view, walk?])
  | directory children => exact view_eq_directory_iff.mpr ⟨children, hinner⟩

end Node

namespace FileSystem

open Node

/-- The surface of the node that a list of names leads to from the root. -/
def view (fs : FileSystem) (names : List String) : Option Surface := fs.root.view names

theorem view_nil (fs : FileSystem) : fs.view [] = some .directory := by
  have hroot := fs.root_isDirectory
  rw [view, Node.view_nil]
  cases hnode : fs.root with
  | file content => rw [hnode] at hroot; exact absurd hroot Bool.false_ne_true
  | directory children => rfl

theorem view_eq_none_iff {fs : FileSystem} {names : List String} :
    fs.view names = none ↔ fs.root.walk? names = none := by
  rw [view, Node.view, Option.map_eq_none_iff]

/-! ## Reading through the parent directory -/

theorem children?_eq_some_iff {fs : FileSystem} {names : List String}
    {children : List (String × Node)} :
    fs.children? names = some children ↔ fs.root.walk? names = some (.directory children) := by
  rw [children?, Option.bind_eq_some_iff]
  constructor
  · rintro ⟨inner, hwalk, hchildren⟩
    rwa [← Node.children?_eq_some_iff.mp hchildren]
  · intro hwalk
    exact ⟨.directory children, hwalk, rfl⟩

/-- Walking to a parent and asking it for a name is walking one name further. -/
theorem children?_bind_lookup (fs : FileSystem) (parent : List String) (leaf : String) :
    (fs.children? parent).bind (·.lookup leaf) = fs.root.walk? (parent ++ [leaf]) := by
  rw [children?, Option.bind_assoc, walk?_append]
  refine Option.bind_congr fun inner _ => ?_
  rw [walk?_cons, Option.bind_congr fun child _ => walk?_nil child, Option.bind_fun_some]

theorem view_child_eq_none_iff {fs : FileSystem} {parent : List String} {leaf : String}
    {children : List (String × Node)} (h : fs.children? parent = some children) :
    fs.view (parent ++ [leaf]) = none ↔ children.lookup leaf = none := by
  rw [view_eq_none_iff, ← children?_bind_lookup, h, Option.bind_some]

theorem node?_eq_walk? (fs : FileSystem) (path : String) :
    fs.node? path = fs.root.walk? (Path.segments path) := by
  unfold node?
  split
  · next hsplit => rw [Path.splitParent_eq_none_iff.mp hsplit, walk?_nil]
  · next parent leaf hsplit =>
    rw [Path.splitParent_eq_some_iff.mp hsplit, children?_bind_lookup]

theorem exists?_eq (fs : FileSystem) (path : String) :
    fs.exists? path = (fs.view (Path.segments path)).isSome := by
  rw [exists?, node?_eq_walk?, view, Node.view, Option.isSome_map]

/-- What reading a path gives, by what is seen at its segments. -/
theorem read_eq (fs : FileSystem) (path : String) :
    fs.read path =
      match fs.view (Path.segments path) with
      | some (.file content) => .ok content
      | some .directory => .error { obstacle := .isADirectory, path, operation := "read" }
      | none => .error { obstacle := .notFound, path, operation := "open" } := by
  unfold read
  split
  · next hsplit => rw [Path.splitParent_eq_none_iff.mp hsplit, view_nil]
  · next parent leaf hsplit =>
    rw [Path.splitParent_eq_some_iff.mp hsplit, children?_bind_lookup, view, Node.view]
    cases fs.root.walk? (parent ++ [leaf]) with
    | none => rfl
    | some inner => cases inner <;> rfl

theorem read_eq_ok_iff {fs : FileSystem} {path content : String} :
    fs.read path = .ok content ↔ fs.view (Path.segments path) = some (.file content) := by
  rw [read_eq]
  split <;> simp_all

/-! ## Reading name by name -/

/-- Along the names a walk comes to a file, which may be the last node it reaches. -/
def FileOnWay (node : Node) (names : List String) : Prop :=
  ∃ front content, front <+: names ∧ node.view front = some (.file content)

theorem fileOnWay_file (content : String) (names : List String) :
    FileOnWay (.file content) names :=
  ⟨[], content, List.nil_prefix, rfl⟩

theorem not_fileOnWay_nil (children : List (String × Node)) :
    ¬ FileOnWay (.directory children) [] := by
  rintro ⟨front, content, hfront, hview⟩
  rw [List.prefix_nil.mp hfront, Node.view_nil] at hview
  simp [surface] at hview

theorem fileOnWay_cons_iff {children : List (String × Node)} {name : String}
    {names : List String} :
    FileOnWay (.directory children) (name :: names) ↔
      ∃ child, children.lookup name = some child ∧ FileOnWay child names := by
  constructor
  · rintro ⟨front, content, hfront, hview⟩
    cases front with
    | nil => simp [Node.view_nil, surface] at hview
    | cons other front =>
      obtain ⟨rfl, hprefix⟩ := List.cons_prefix_cons.mp hfront
      rw [view_eq_file_iff, walk?_cons, Node.children?, Option.bind_some,
        Option.bind_eq_some_iff] at hview
      obtain ⟨child, hlookup, hwalk⟩ := hview
      exact ⟨child, hlookup, front, content, hprefix, view_eq_file_iff.mpr hwalk⟩
  · rintro ⟨child, hlookup, front, content, hprefix, hview⟩
    refine ⟨name :: front, content, List.cons_prefix_cons.mpr ⟨rfl, hprefix⟩, ?_⟩
    rw [view_eq_file_iff, walk?_cons, Node.children?, Option.bind_some, hlookup, Option.bind_some]
    exact view_eq_file_iff.mp hview

theorem descend_eq_ok_iff {node : Node} {names : List String} {children : List (String × Node)} :
    descend node names = .ok children ↔ node.walk? names = some (.directory children) := by
  induction names generalizing node with
  | nil => cases node <;> simp [descend, walk?]
  | cons name names ih =>
    cases node with
    | file content => simp [descend, walk?]
    | directory others =>
      rw [descend, walk?_cons, Node.children?, Option.bind_some]
      cases others.lookup name with
      | none => simp
      | some child => exact ih

theorem descend_eq_notADirectory_iff {node : Node} {names : List String} :
    descend node names = .error .notADirectory ↔ FileOnWay node names := by
  induction names generalizing node with
  | nil =>
    cases node with
    | file content => exact iff_of_true rfl (fileOnWay_file content [])
    | directory children => exact iff_of_false (by simp [descend]) (not_fileOnWay_nil children)
  | cons name names ih =>
    cases node with
    | file content => exact iff_of_true rfl (fileOnWay_file content (name :: names))
    | directory others =>
      rw [descend, fileOnWay_cons_iff]
      cases others.lookup name with
      | none => simp
      | some child => simpa using ih

/-- A name is missing where a walk leads nowhere and meets no file. -/
theorem descend_eq_notFound_iff {node : Node} {names : List String} :
    descend node names = .error .notFound ↔ node.view names = none ∧ ¬ FileOnWay node names := by
  induction names generalizing node with
  | nil => cases node <;> simp [descend, Node.view_nil]
  | cons name names ih =>
    cases node with
    | file content =>
      refine iff_of_false (by simp [descend]) ?_
      rintro ⟨-, hway⟩
      exact hway (fileOnWay_file content (name :: names))
    | directory others =>
      rw [descend, fileOnWay_cons_iff, Node.view, walk?_cons, Node.children?, Option.bind_some]
      cases others.lookup name with
      | none => simp
      | some child => simpa [Node.view] using ih

theorem resolveDirectory_eq_ok_iff {fs : FileSystem} {path operation : String}
    {children : List (String × Node)} :
    fs.resolveDirectory path operation = .ok children ↔
      fs.root.walk? (Path.segments path) = some (.directory children) := by
  rw [← descend_eq_ok_iff, resolveDirectory]
  cases descend fs.root (Path.segments path) <;> simp [Except.mapError]

theorem resolveDirectory_eq_error_iff {fs : FileSystem} {path operation : String}
    {failure : Failure} :
    fs.resolveDirectory path operation = .error failure ↔
      ∃ obstacle, descend fs.root (Path.segments path) = .error obstacle ∧
        failure = { obstacle, path, operation } := by
  rw [resolveDirectory]
  cases descend fs.root (Path.segments path) <;> simp [Except.mapError, eq_comm]

theorem isOk_iff {ε α : Type} {result : Except ε α} :
    result.isOk = true ↔ ∃ value, result = .ok value := by
  cases result <;> simp [Except.isOk, Except.toBool]

theorem isDirectory_iff {fs : FileSystem} {path : String} :
    fs.isDirectory path = true ↔ fs.view (Path.segments path) = some .directory := by
  rw [view, view_eq_directory_iff, isDirectory, isOk_iff]
  exact exists_congr fun children => resolveDirectory_eq_ok_iff

/-- Listing is resolving under another label, and sorting what was found. -/
theorem list_eq (fs : FileSystem) (path : String) :
    fs.list path =
      ((fs.resolveDirectory path).mapError ({ · with operation := "scandir" })).map listing := by
  rw [list, resolveDirectory, resolveDirectory]
  cases descend fs.root (Path.segments path) <;> rfl

/-! ## Agreement of the observers -/

/-- A file stands at the end of the segments of a path or on the way to it. -/
def Obstructed (fs : FileSystem) (path : String) : Prop :=
  ∃ front content, front ≠ [] ∧ front <+: Path.segments path ∧
    fs.view front = some (.file content)

/-- The root is no file, so that a file on the way stands behind some segment. -/
theorem obstructed_iff {fs : FileSystem} {path : String} :
    fs.Obstructed path ↔ FileOnWay fs.root (Path.segments path) := by
  constructor
  · rintro ⟨front, content, -, hprefix, hview⟩
    exact ⟨front, content, hprefix, hview⟩
  · rintro ⟨front, content, hprefix, hview⟩
    refine ⟨front, content, ?_, hprefix, hview⟩
    rintro rfl
    have hroot := fs.view_nil
    rw [view, hview] at hroot
    exact absurd hroot (by simp)

theorem resolveDirectory_eq_notADirectory_iff {fs : FileSystem} {path operation : String} :
    fs.resolveDirectory path operation =
        .error { obstacle := .notADirectory, path, operation } ↔ fs.Obstructed path := by
  rw [obstructed_iff, ← descend_eq_notADirectory_iff, resolveDirectory_eq_error_iff]
  simp

theorem resolveDirectory_eq_notFound_iff {fs : FileSystem} {path operation : String} :
    fs.resolveDirectory path operation = .error { obstacle := .notFound, path, operation } ↔
      fs.exists? path = false ∧ ¬ fs.Obstructed path := by
  rw [obstructed_iff, exists?_eq, Option.isSome_eq_false_iff, Option.isNone_iff_eq_none, view,
    ← descend_eq_notFound_iff, resolveDirectory_eq_error_iff]
  simp

/-- The observers describe one tree. A path names a directory, a file or nothing, and each observer
says which; a directory that cannot be resolved has a file on the way to it, or else the path leads
nowhere; and nothing but the segments of the path matters, apart from the path in a failure. -/
theorem observers_agree (fs : FileSystem) (path : String) :
    ((fs.isDirectory path = true ∧ (fs.read path).isOk = false ∧ fs.exists? path = true) ∨
      (fs.isDirectory path = false ∧ (fs.read path).isOk = true ∧ fs.exists? path = true) ∨
      (fs.isDirectory path = false ∧ (fs.read path).isOk = false ∧ fs.exists? path = false)) ∧
    ((fs.list path).isOk = true ↔ fs.isDirectory path = true) ∧
    (fs.read path = .error { obstacle := .isADirectory, path, operation := "read" } ↔
      fs.isDirectory path = true) ∧
    (fs.read path = .error { obstacle := .notFound, path, operation := "open" } ↔
      fs.exists? path = false) ∧
    (fs.resolveDirectory path =
        .error { obstacle := .notADirectory, path, operation := "resolve" } ↔
      fs.Obstructed path) ∧
    (fs.resolveDirectory path = .error { obstacle := .notFound, path, operation := "resolve" } ↔
      fs.exists? path = false ∧ ¬ fs.Obstructed path) ∧
    fs.list path =
      ((fs.resolveDirectory path).mapError ({ · with operation := "scandir" })).map listing ∧
    (∀ other, Path.segments other = Path.segments path →
      fs.isDirectory other = fs.isDirectory path ∧ fs.exists? other = fs.exists? path ∧
      (fs.read other).mapError ({ · with path }) = fs.read path ∧
      (fs.list other).mapError ({ · with path }) = fs.list path ∧
      (fs.resolveDirectory other).mapError ({ · with path }) = fs.resolveDirectory path) := by
  have hdirectory : fs.isDirectory path = true ↔ fs.view (Path.segments path) = some .directory :=
    isDirectory_iff
  have hexists := fs.exists?_eq path
  have hread := fs.read_eq path
  refine ⟨?_, ?_, ?_, ?_, resolveDirectory_eq_notADirectory_iff,
    resolveDirectory_eq_notFound_iff, fs.list_eq path, ?_⟩
  · -- one case for each thing that can be seen at the segments
    rw [← Bool.not_eq_true (fs.isDirectory path), hdirectory, hread, hexists]
    cases fs.view (Path.segments path) with
    | none => exact Or.inr (Or.inr ⟨by simp, rfl, rfl⟩)
    | some shown =>
      cases shown with
      | file content => exact Or.inr (Or.inl ⟨by simp, rfl, rfl⟩)
      | directory => exact Or.inl ⟨rfl, rfl, rfl⟩
  · rw [fs.list_eq path, isDirectory]
    cases fs.resolveDirectory path <;> exact Iff.rfl
  · rw [hdirectory, hread]
    split <;> simp_all
  · rw [hexists, hread]
    split <;> simp_all
  · intro other hsegments
    have hresolve (operation : String) :
        (fs.resolveDirectory other operation).mapError ({ · with path }) =
          fs.resolveDirectory path operation := by
      rw [resolveDirectory, resolveDirectory, hsegments]
      cases descend fs.root (Path.segments path) <;> rfl
    refine ⟨?_, ?_, ?_, ?_, hresolve "resolve"⟩
    · rw [Bool.eq_iff_iff, isDirectory_iff, isDirectory_iff, hsegments]
    · rw [exists?_eq, exists?_eq, hsegments]
    · rw [read_eq, read_eq, hsegments]
      cases fs.view (Path.segments path) with
      | none => rfl
      | some shown => cases shown <;> rfl
    · rw [list, list, ← hresolve "scandir"]
      cases fs.resolveDirectory other "scandir" <;> rfl

end FileSystem

end TreeShell
