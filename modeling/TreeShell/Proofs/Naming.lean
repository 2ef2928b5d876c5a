import Mathlib.Data.List.Nodup
import TreeShell.Proofs.Growth

/-!
# Names in a tree

A directory holds one child for each name, and a path can hold only some texts as names. Whether a
tree is named properly is an invariant: storing a node under an allowed name keeps it, wherever the
node is stored. In such a tree every node can be addressed, for the names on the way to it lead to
it and to no other node.
-/

namespace TreeShell

namespace Node

/-- In every directory of a tree the children have distinct names, each of them an allowed one. -/
inductive Named (allowed : String → Prop) : Node → Prop where
  /-- A file has no children. -/
  | file (content : String) : Named allowed (.file content)
  /-- The children of a directory have distinct, allowed names, and so it goes on below them. -/
  | directory {children : List (String × Node)}
      (distinct : (children.map Prod.fst).Nodup)
      (names : ∀ child ∈ children, allowed child.1)
      (nodes : ∀ child ∈ children, Named allowed child.2) : Named allowed (.directory children)

/-- The node `inner` stands in a tree behind the given names, by the children on the way to it. -/
inductive Holds : Node → List String → Node → Prop where
  /-- The tree itself stands behind no names. -/
  | here (node : Node) : Holds node [] node
  /-- What stands in a child stands in the directory behind one name more. -/
  | deeper {children : List (String × Node)} {name : String} {child inner : Node}
      {names : List String} (hchild : (name, child) ∈ children) (h : Holds child names inner) :
      Holds (.directory children) (name :: names) inner

variable {allowed : String → Prop}

/-! ## Storing keeps names in order -/

theorem map_fst_store (name : String) (node : Node) (children : List (String × Node)) :
    (store name node children).map Prod.fst =
      if name ∈ children.map Prod.fst then children.map Prod.fst
      else children.map Prod.fst ++ [name] := by
  induction children with
  | nil => rfl
  | cons child children ih =>
    rw [store, List.map_cons]
    by_cases hname : child.1 = name
    · rw [if_pos hname, if_pos (by rw [hname]; exact List.mem_cons_self), List.map_cons, hname]
    · have hmem : name ∈ child.1 :: children.map Prod.fst ↔ name ∈ children.map Prod.fst := by
        rw [List.mem_cons, or_iff_right (Ne.symm hname)]
      rw [if_neg hname, List.map_cons, ih, List.cons_append]
      simp only [hmem]
      split_ifs <;> rfl

theorem nodup_map_fst_store {children : List (String × Node)}
    (h : (children.map Prod.fst).Nodup) (name : String) (node : Node) :
    ((store name node children).map Prod.fst).Nodup := by
  rw [map_fst_store]
  split_ifs with hname
  · exact h
  · rw [List.nodup_append]
    refine ⟨h, List.nodup_singleton name, ?_⟩
    intro other hother last hlast heq
    rw [heq, List.mem_singleton.mp hlast] at hother
    exact hname hother

theorem eq_or_mem_of_mem_store {name : String} {node : Node} {child : String × Node}
    {children : List (String × Node)} (h : child ∈ store name node children) :
    child = (name, node) ∨ child ∈ children := by
  induction children with
  | nil => exact Or.inl (List.mem_singleton.mp h)
  | cons first children ih =>
    rw [store] at h
    split_ifs at h with hname
    · rcases List.mem_cons.mp h with h | h
      · exact Or.inl h
      · exact Or.inr (List.mem_cons_of_mem first h)
    · rcases List.mem_cons.mp h with h | h
      · exact Or.inr (List.mem_cons.mpr (Or.inl h))
      · rcases ih h with h | h
        · exact Or.inl h
        · exact Or.inr (List.mem_cons_of_mem first h)

theorem Named.empty : Named allowed empty :=
  .directory List.nodup_nil (fun _ h => absurd h List.not_mem_nil)
    fun _ h => absurd h List.not_mem_nil

theorem Named.store {name : String} {node : Node} {children : List (String × Node)}
    (h : Named allowed (.directory children)) (hname : allowed name) (hnode : Named allowed node) :
    Named allowed (.directory (store name node children)) := by
  cases h with
  | directory distinct names nodes =>
    refine .directory (nodup_map_fst_store distinct name node) ?_ ?_
    · intro child hchild
      rcases eq_or_mem_of_mem_store hchild with rfl | hchild
      · exact hname
      · exact names child hchild
    · intro child hchild
      rcases eq_or_mem_of_mem_store hchild with rfl | hchild
      · exact hnode
      · exact nodes child hchild

theorem mem_of_lookup_eq_some {name : String} {child : Node} {children : List (String × Node)}
    (h : children.lookup name = some child) : (name, child) ∈ children := by
  obtain ⟨front, back, rfl, -⟩ := List.lookup_eq_some_iff.mp h
  exact List.mem_append_right front List.mem_cons_self

/-- A node that is stored under an allowed name leaves a tree named as before. -/
theorem Named.storeAt? {node new changed : Node} {leaf : String} {parent : List String}
    (h : Named allowed node) (hleaf : allowed leaf) (hnew : Named allowed new)
    (hstore : node.storeAt? leaf new parent = some changed) : Named allowed changed := by
  induction parent generalizing node changed with
  | nil =>
    obtain ⟨children, rfl, rfl⟩ := storeAt?_nil_eq_some_iff.mp hstore
    exact h.store hleaf hnew
  | cons next parent ih =>
    obtain ⟨children, child, inner, rfl, hchild, hinner, rfl⟩ :=
      storeAt?_cons_eq_some_iff.mp hstore
    have hmem := mem_of_lookup_eq_some hchild
    have hdirectory := h
    cases h with
    | directory distinct names nodes =>
      exact hdirectory.store (names _ hmem) (ih (nodes _ hmem) hinner)

theorem Named.mono {permitted : String → Prop} {node : Node} (h : Named allowed node)
    (hallowed : ∀ name, allowed name → permitted name) : Named permitted node := by
  induction h with
  | file content => exact .file content
  | directory distinct names _ ih =>
    exact .directory distinct (fun child hchild => hallowed _ (names child hchild)) ih

theorem Named.walk? {node inner : Node} {names : List String} (h : Named allowed node)
    (hwalk : node.walk? names = some inner) : Named allowed inner := by
  induction names generalizing node with
  | nil =>
    rw [walk?_nil] at hwalk
    rwa [← Option.some.inj hwalk]
  | cons name names ih =>
    rw [walk?_cons, Option.bind_eq_some_iff] at hwalk
    obtain ⟨child, hchild, hwalk⟩ := hwalk
    cases h with
    | file content => exact absurd hchild (by simp [children?])
    | directory distinct names nodes =>
      exact ih (nodes _ (mem_of_lookup_eq_some hchild)) hwalk

/-! ## Nodes are found by their names -/

theorem lookup_eq_some_of_mem {name : String} {child : Node} {children : List (String × Node)}
    (hdistinct : (children.map Prod.fst).Nodup) (hmem : (name, child) ∈ children) :
    children.lookup name = some child := by
  induction children with
  | nil => exact absurd hmem List.not_mem_nil
  | cons first children ih =>
    obtain ⟨other, node⟩ := first
    rw [List.map_cons, List.nodup_cons] at hdistinct
    rw [lookup_cons_eq_if]
    rcases List.mem_cons.mp hmem with heq | hlater
    · obtain ⟨rfl, rfl⟩ := Prod.mk.inj heq
      rw [if_pos rfl]
    · -- the first child has another name, since names are distinct
      have hne : name ≠ other := by
        intro heq
        rw [← heq] at hdistinct
        exact hdistinct.1 (List.mem_map.mpr ⟨(name, child), hlater, rfl⟩)
      rw [if_neg hne, ih hdistinct.2 hlater]

theorem Named.walk?_eq_of_holds {node inner : Node} {names : List String}
    (h : Named allowed node) (hholds : node.Holds names inner) : node.walk? names = some inner := by
  induction hholds with
  | here node => rw [walk?_nil]
  | deeper hchild hinner ih =>
    cases h with
    | directory distinct allowed nodes =>
      rw [walk?_cons, children?, Option.bind_some, lookup_eq_some_of_mem distinct hchild,
        Option.bind_some, ih (nodes _ hchild)]

theorem Named.allowed_of_holds {node inner : Node} {names : List String}
    (h : Named allowed node) (hholds : node.Holds names inner) : ∀ name ∈ names, allowed name := by
  induction hholds with
  | here node => exact fun name hname => absurd hname List.not_mem_nil
  | deeper hchild hinner ih =>
    cases h with
    | directory distinct names nodes =>
      intro name hname
      rcases List.mem_cons.mp hname with rfl | hname
      · exact names _ hchild
      · exact ih (nodes _ hchild) name hname

/-- A tree that paths can address: a directory in which every name is one that a path can hold. -/
structure WellFormed (node : Node) : Prop where
  /-- The root is a directory. -/
  isDirectory : node.isDirectory = true
  /-- Siblings have distinct names that a path can hold. -/
  named : node.Named Path.IsName

end Node

namespace FileSystem

open Node

theorem wellFormed_iff (fs : FileSystem) : fs.root.WellFormed ↔ fs.root.Named Path.IsName :=
  ⟨WellFormed.named, fun hnamed => ⟨fs.root_isDirectory, hnamed⟩⟩

/-- In a well-formed tree the path that is written from the names on the way to a node is canonical
and leads to the node. -/
theorem addressable_of_holds {fs : FileSystem} {names : List String} {node : Node}
    (h : fs.root.WellFormed) (hholds : fs.root.Holds names node) :
    Path.normalize (Path.render names) = Path.render names ∧
      fs.node? (Path.render names) = some node := by
  have hnames : ∀ name ∈ names, Path.IsName name := h.named.allowed_of_holds hholds
  have hsegments : Path.segments (Path.render names) = names :=
    Path.segments_render_of_isName hnames
  refine ⟨Path.normalize_of_isCanonical ⟨names, hnames, rfl⟩, ?_⟩
  rw [node?_eq_walk?, hsegments, h.named.walk?_eq_of_holds hholds]

/-! ## Creations -/

theorem Creation.named_product? {allowed : String → Prop} {fs : FileSystem} {creation : Creation}
    {new : Node} (h : creation.product? fs = some new) : Named allowed new := by
  cases creation with
  | directory path =>
    rw [← Option.some.inj h]
    exact .empty
  | file path content =>
    rw [← Option.some.inj h]
    exact .file content
  | copy source path =>
    rw [product?] at h
    split at h
    · next content _ =>
      rw [← Option.some.inj h]
      exact .file content
    · exact absurd h (by simp)

/-- A creation whose target has an allowed last name leaves the tree named as before. -/
theorem Creation.named_of_run {allowed : String → Prop} {fs after : FileSystem}
    {creation : Creation} (h : Named allowed fs.root)
    (hleaf : ∀ parent leaf, Path.segments creation.target = parent ++ [leaf] → allowed leaf)
    (hrun : creation.run fs = .ok after) : Named allowed after.root := by
  obtain ⟨new, parent, leaf, hproduct, hsegments, hstore⟩ := Creation.exists_storeAt?_of_run hrun
  exact h.storeAt? (hleaf parent leaf hsegments) (Creation.named_product? hproduct) hstore

/-- Growth keeps a tree well formed, because what it creates has a canonical path. -/
theorem Growth.wellFormed {fs after : FileSystem} (h : Growth fs after)
    (hfs : fs.root.WellFormed) : after.root.WellFormed := by
  induction h with
  | refl => exact hfs
  | tail _ hgrows ih =>
    obtain ⟨creation, -, hcanonical, hrun⟩ := hgrows
    rw [wellFormed_iff] at ih ⊢
    refine Creation.named_of_run ih ?_ hrun
    intro parent leaf hsegments
    exact Path.isName_of_mem_segments hcanonical (by rw [hsegments]; simp)

end FileSystem

end TreeShell
