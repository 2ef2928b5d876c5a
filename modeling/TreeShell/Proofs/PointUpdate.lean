import Mathlib.Logic.Function.Basic
import TreeShell.Proofs.Observation

/-!
# Point updates

Storing a node below a directory changes the tree on one branch only: a walk that passes the new
name goes on in the new node, a walk that stops on the way to it comes to a directory as before, and
every other walk is the same. Seen from outside, a file system is updated at one point: the new node
is seen where nothing was, it is the last child of its parent, and all else looks as it did.
-/

namespace TreeShell

namespace Node

/-! ## Storing a child -/

theorem lookup_cons_eq_if (name key : String) (node : Node) (children : List (String × Node)) :
    ((name, node) :: children).lookup key = if key = name then some node else children.lookup key := by
  rw [List.lookup_cons]
  by_cases hkey : key = name
  · rw [if_pos hkey, beq_iff_eq.mpr hkey]
  · rw [if_neg hkey, beq_eq_false_iff_ne.mpr hkey]

theorem lookup_store (name key : String) (node : Node) (children : List (String × Node)) :
    (store name node children).lookup key = if key = name then some node else children.lookup key := by
  induction children with
  | nil => rw [store, lookup_cons_eq_if]
  | cons child children ih =>
    obtain ⟨other, inner⟩ := child
    rw [store]
    by_cases hother : other = name
    · subst hother
      rw [if_pos rfl, lookup_cons_eq_if, lookup_cons_eq_if]
      by_cases hkey : key = other
      · rw [if_pos hkey, if_pos hkey]
      · rw [if_neg hkey, if_neg hkey, if_neg hkey]
    · rw [if_neg hother, lookup_cons_eq_if, lookup_cons_eq_if, ih]
      by_cases hkey : key = other
      · rw [if_pos hkey, if_neg (hkey ▸ hother), if_pos hkey]
      · rw [if_neg hkey, if_neg hkey]

/-- A name that is not there yet comes last. -/
theorem store_of_lookup_eq_none {name : String} {children : List (String × Node)}
    (h : children.lookup name = none) (node : Node) :
    store name node children = children ++ [(name, node)] := by
  induction children with
  | nil => rfl
  | cons child children ih =>
    obtain ⟨other, inner⟩ := child
    rw [lookup_cons_eq_if] at h
    split_ifs at h with hname
    rw [store, if_neg (Ne.symm hname), ih h, List.cons_append]

/-- The entries of a directory in the order of its children. -/
def entries (children : List (String × Node)) : List Entry :=
  children.map fun (name, node) => ⟨node.kind, name⟩

theorem entries_cons (name : String) (node : Node) (children : List (String × Node)) :
    entries ((name, node) :: children) = ⟨node.kind, name⟩ :: entries children := rfl

/-- A child that is replaced by a node of its kind leaves the entries as they are. -/
theorem entries_store {name : String} {child node : Node} {children : List (String × Node)}
    (hchild : children.lookup name = some child) (hkind : child.kind = node.kind) :
    entries (store name node children) = entries children := by
  induction children with
  | nil => exact absurd hchild (by simp)
  | cons first children ih =>
    obtain ⟨other, inner⟩ := first
    rw [lookup_cons_eq_if] at hchild
    split_ifs at hchild with hname
    · obtain rfl := Option.some.inj hchild
      subst hname
      rw [store, if_pos rfl, entries_cons, entries_cons, hkind]
    · rw [store, if_neg (Ne.symm hname), entries_cons, entries_cons, ih hchild]

/-! ## Storing a node further down -/

theorem storeAt?_nil_eq_some_iff {node new changed : Node} {leaf : String} :
    node.storeAt? leaf new [] = some changed ↔
      ∃ children, node = .directory children ∧ changed = .directory (store leaf new children) := by
  cases node <;> simp [storeAt?, eq_comm]

theorem storeAt?_cons_eq_some_iff {node new changed : Node} {leaf next : String}
    {names : List String} :
    node.storeAt? leaf new (next :: names) = some changed ↔
      ∃ children child inner, node = .directory children ∧ children.lookup next = some child ∧
        child.storeAt? leaf new names = some inner ∧
        changed = .directory (store next inner children) := by
  cases node with
  | file content => simp [storeAt?]
  | directory children =>
    rw [storeAt?, Option.bind_eq_some_iff]
    simp only [Option.map_eq_some_iff, directory.injEq]
    constructor
    · rintro ⟨child, hchild, inner, hinner, rfl⟩
      exact ⟨children, child, inner, rfl, hchild, hinner, rfl⟩
    · rintro ⟨others, child, inner, rfl, hchild, hinner, rfl⟩
      exact ⟨child, hchild, inner, hinner, rfl⟩

/-- Storing succeeds below every directory. -/
theorem exists_storeAt? {node new : Node} {leaf : String} {parent : List String}
    {children : List (String × Node)} (h : node.walk? parent = some (.directory children)) :
    ∃ changed, node.storeAt? leaf new parent = some changed := by
  induction parent generalizing node with
  | nil =>
    rw [walk?_nil] at h
    obtain rfl := Option.some.inj h
    exact ⟨_, storeAt?_nil_eq_some_iff.mpr ⟨children, rfl, rfl⟩⟩
  | cons next parent ih =>
    rw [walk?_cons, Option.bind_assoc, Option.bind_eq_some_iff] at h
    obtain ⟨others, hothers, h⟩ := h
    obtain ⟨child, hchild, hwalk⟩ := Option.bind_eq_some_iff.mp h
    obtain ⟨inner, hinner⟩ := ih hwalk
    exact ⟨_, storeAt?_cons_eq_some_iff.mpr
      ⟨others, child, inner, children?_eq_some_iff.mp hothers, hchild, hinner, rfl⟩⟩

/-- Nodes are stored in directories, which stay directories. -/
theorem exists_directory_of_storeAt? {node new changed : Node} {leaf : String}
    {parent : List String} (h : node.storeAt? leaf new parent = some changed) :
    ∃ children others, node = .directory children ∧ changed = .directory others := by
  cases parent with
  | nil =>
    obtain ⟨children, rfl, rfl⟩ := storeAt?_nil_eq_some_iff.mp h
    exact ⟨children, _, rfl, rfl⟩
  | cons next parent =>
    obtain ⟨children, child, inner, rfl, -, -, rfl⟩ := storeAt?_cons_eq_some_iff.mp h
    exact ⟨children, _, rfl, rfl⟩

section Walks

variable {node new changed : Node} {leaf : String} {parent : List String}

/-- At the new name the walk comes to the new node, and goes on in it. -/
theorem walk?_storeAt?_below (h : node.storeAt? leaf new parent = some changed)
    (rest : List String) : changed.walk? (parent ++ leaf :: rest) = new.walk? rest := by
  induction parent generalizing node changed with
  | nil =>
    obtain ⟨children, -, rfl⟩ := storeAt?_nil_eq_some_iff.mp h
    rw [List.nil_append, walk?_cons, children?, Option.bind_some, lookup_store, if_pos rfl,
      Option.bind_some]
  | cons next parent ih =>
    obtain ⟨children, child, inner, -, -, hinner, rfl⟩ := storeAt?_cons_eq_some_iff.mp h
    rw [List.cons_append, walk?_cons, children?, Option.bind_some, lookup_store, if_pos rfl,
      Option.bind_some, ih hinner]

/-- On the way to the parent the walk comes to what was there, with the node stored in it. -/
theorem walk?_storeAt?_above {front back : List String}
    (h : node.storeAt? leaf new (front ++ back) = some changed) :
    ∃ inner now, node.walk? front = some inner ∧ changed.walk? front = some now ∧
      inner.storeAt? leaf new back = some now := by
  induction front generalizing node changed with
  | nil => exact ⟨node, changed, walk?_nil node, walk?_nil changed, h⟩
  | cons next front ih =>
    rw [List.cons_append] at h
    obtain ⟨children, child, below, rfl, hchild, hbelow, rfl⟩ := storeAt?_cons_eq_some_iff.mp h
    obtain ⟨inner, now, hinner, hnow, hstore⟩ := ih hbelow
    refine ⟨inner, now, ?_, ?_, hstore⟩
    · rw [walk?_cons, children?, Option.bind_some, hchild, Option.bind_some, hinner]
    · rw [walk?_cons, children?, Option.bind_some, lookup_store, if_pos rfl, Option.bind_some,
        hnow]

/-- Every other walk is as before. -/
theorem walk?_storeAt?_aside (h : node.storeAt? leaf new parent = some changed)
    {names : List String} (hbelow : ¬ parent ++ [leaf] <+: names) (habove : ¬ names <+: parent) :
    changed.walk? names = node.walk? names := by
  induction parent generalizing node changed names with
  | nil =>
    obtain ⟨children, rfl, rfl⟩ := storeAt?_nil_eq_some_iff.mp h
    cases names with
    | nil => exact absurd List.nil_prefix habove
    | cons name names =>
      have hname : name ≠ leaf := by
        rintro rfl
        exact hbelow ⟨names, rfl⟩
      rw [walk?_cons, walk?_cons, children?, children?, Option.bind_some, Option.bind_some,
        lookup_store, if_neg hname]
  | cons next parent ih =>
    obtain ⟨children, child, inner, rfl, hchild, hinner, rfl⟩ := storeAt?_cons_eq_some_iff.mp h
    cases names with
    | nil => exact absurd List.nil_prefix habove
    | cons name names =>
      rw [walk?_cons, walk?_cons, children?, children?, Option.bind_some, Option.bind_some,
        lookup_store]
      by_cases hname : name = next
      · subst hname
        rw [if_pos rfl, hchild, Option.bind_some, Option.bind_some]
        rw [List.cons_append, List.cons_prefix_cons, not_and] at hbelow
        rw [List.cons_prefix_cons, not_and] at habove
        exact ih hinner (hbelow rfl) (habove rfl)
      · rw [if_neg hname]

end Walks

end Node

namespace FileSystem

open Node

theorem ofRoot_of_isDirectory (root : Node) (source : Option String)
    (h : root.isDirectory = true) :
    (ofRoot root source).root = root ∧ (ofRoot root source).source = source := by
  rw [ofRoot, dif_pos h]
  exact ⟨rfl, rfl⟩

/-- The entries of the directory that a list of names leads to, in the order of its children. -/
def entries? (fs : FileSystem) (names : List String) : Option (List Entry) :=
  (fs.children? names).map entries

/-- `after` is `fs` with `new` added as the child `leaf` of the directory at `parent`. -/
structure PointUpdate (fs : FileSystem) (parent : List String) (leaf : String) (new : Node)
    (after : FileSystem) : Prop where
  /-- Nothing was at the new name. -/
  vacant : fs.view (parent ++ [leaf]) = none
  /-- The new node is seen at the new name, and all else looks as before. -/
  view_eq : after.view = Function.update fs.view (parent ++ [leaf]) (some new.surface)
  /-- The new node is all there. -/
  walk?_eq : after.root.walk? (parent ++ [leaf]) = some new
  /-- The parent gains one child, behind those it has. -/
  children?_eq : ∃ children, fs.children? parent = some children ∧
    after.children? parent = some (children ++ [(leaf, new)])
  /-- No other directory gains or loses an entry. -/
  entries?_eq : ∀ names, names ≠ parent → names ≠ parent ++ [leaf] →
    after.entries? names = fs.entries? names
  /-- The document is the same. -/
  source_eq : after.source = fs.source

section Storing

variable {fs after : FileSystem} {parent : List String} {leaf : String} {new : Node}

theorem view_of_storeAt? (hstore : fs.root.storeAt? leaf new parent = some after.root)
    (hvacant : fs.view (parent ++ [leaf]) = none)
    (hbare : ∀ name names, new.walk? (name :: names) = none) :
    after.view = Function.update fs.view (parent ++ [leaf]) (some new.surface) := by
  funext names
  by_cases hbelow : parent ++ [leaf] <+: names
  · obtain ⟨rest, rfl⟩ := hbelow
    have hafter : after.view (parent ++ [leaf] ++ rest) = new.view rest := by
      rw [view, Node.view, List.append_assoc, List.singleton_append, walk?_storeAt?_below hstore,
        Node.view]
    rw [hafter]
    cases rest with
    | nil => rw [List.append_nil, Function.update_self, Node.view_nil]
    | cons name rest =>
      have hne : parent ++ [leaf] ++ name :: rest ≠ parent ++ [leaf] := by simp
      rw [Function.update_of_ne hne, Node.view, hbare, Option.map_none]
      rw [view_eq_none_iff] at hvacant
      rw [view, view_append, hvacant, Option.bind_none]
  · have hne : names ≠ parent ++ [leaf] := fun h => hbelow (h ▸ List.prefix_refl _)
    rw [Function.update_of_ne hne]
    by_cases habove : names <+: parent
    · obtain ⟨back, rfl⟩ := habove
      obtain ⟨inner, now, hinner, hnow, hinside⟩ := walk?_storeAt?_above hstore
      obtain ⟨children, others, rfl, rfl⟩ := exists_directory_of_storeAt? hinside
      rw [view, view, Node.view, Node.view, hinner, hnow]
      rfl
    · rw [view, view, Node.view, Node.view, walk?_storeAt?_aside hstore hbelow habove]

theorem children?_of_storeAt? (hstore : fs.root.storeAt? leaf new parent = some after.root)
    (hvacant : fs.view (parent ++ [leaf]) = none) :
    ∃ children, fs.children? parent = some children ∧
      after.children? parent = some (children ++ [(leaf, new)]) := by
  rw [← List.append_nil parent] at hstore
  obtain ⟨inner, now, hinner, hnow, hinside⟩ := walk?_storeAt?_above hstore
  obtain ⟨children, rfl, rfl⟩ := storeAt?_nil_eq_some_iff.mp hinside
  have hchildren : fs.children? parent = some children := children?_eq_some_iff.mpr hinner
  have hlookup : children.lookup leaf = none := (view_child_eq_none_iff hchildren).mp hvacant
  refine ⟨children, hchildren, ?_⟩
  rw [children?_eq_some_iff, hnow, store_of_lookup_eq_none hlookup]

theorem entries?_of_storeAt? (hstore : fs.root.storeAt? leaf new parent = some after.root)
    (hvacant : fs.view (parent ++ [leaf]) = none)
    (hbare : ∀ name names, new.walk? (name :: names) = none) {names : List String}
    (hparent : names ≠ parent) (hleaf : names ≠ parent ++ [leaf]) :
    after.entries? names = fs.entries? names := by
  by_cases hbelow : parent ++ [leaf] <+: names
  · obtain ⟨rest, rfl⟩ := hbelow
    obtain ⟨name, rest, rfl⟩ : ∃ name others, rest = name :: others :=
      List.exists_cons_of_ne_nil fun hnil => hleaf (by rw [hnil, List.append_nil])
    have hafter : after.root.walk? (parent ++ [leaf] ++ name :: rest) = none := by
      rw [List.append_assoc, List.singleton_append, walk?_storeAt?_below hstore, hbare]
    have hbefore : fs.root.walk? (parent ++ [leaf] ++ name :: rest) = none := by
      rw [view_eq_none_iff] at hvacant
      rw [walk?_append, hvacant, Option.bind_none]
    rw [entries?, entries?, children?, children?, hafter, hbefore]
  · by_cases habove : names <+: parent
    · obtain ⟨back, rfl⟩ := habove
      obtain ⟨next, back, rfl⟩ : ∃ next others, back = next :: others :=
        List.exists_cons_of_ne_nil fun hnil => hparent (by rw [hnil, List.append_nil])
      obtain ⟨inner, now, hinner, hnow, hinside⟩ := walk?_storeAt?_above hstore
      obtain ⟨children, child, below, rfl, hchild, hbelow, rfl⟩ :=
        storeAt?_cons_eq_some_iff.mp hinside
      obtain ⟨old, later, rfl, rfl⟩ := exists_directory_of_storeAt? hbelow
      have hkind : (directory old).kind = (directory later).kind := rfl
      rw [entries?, entries?, children?_eq_some_iff.mpr hinner, children?_eq_some_iff.mpr hnow,
        Option.map_some, Option.map_some, entries_store hchild hkind]
    · rw [entries?, entries?, children?, children?, walk?_storeAt?_aside hstore hbelow habove]

/-- A node without children that is stored at a free name makes a point update. -/
theorem pointUpdate_of_storeAt? (hstore : fs.root.storeAt? leaf new parent = some after.root)
    (hvacant : fs.view (parent ++ [leaf]) = none)
    (hbare : ∀ name names, new.walk? (name :: names) = none)
    (hsource : after.source = fs.source) : PointUpdate fs parent leaf new after where
  vacant := hvacant
  view_eq := view_of_storeAt? hstore hvacant hbare
  walk?_eq := by rw [walk?_storeAt?_below hstore, walk?_nil]
  children?_eq := children?_of_storeAt? hstore hvacant
  entries?_eq _ := entries?_of_storeAt? hstore hvacant hbare
  source_eq := hsource

end Storing

end FileSystem

end TreeShell
