import TreeShell.Proofs.ChildOrder

/-!
# Listings

A listing shows each child of a directory once, with its kind: the files before the directories, and
the nodes of one kind by name. The children alone determine it, in whatever order they were added. A
creation puts one entry to its place in the listing of one directory and leaves all others alone.
-/

namespace TreeShell

/-! ## The order of entries -/

namespace Entry

variable {entry other : Entry} {entries : List Entry}

/-- Whether an entry stands before another one in a listing: files before directories, and entries
of one kind by name, in the order of their code points. -/
def Precedes (entry other : Entry) : Prop :=
  entry.kind = .file ∧ other.kind = .directory ∨
    entry.kind = other.kind ∧ entry.name < other.name

instance : Decidable (entry.Precedes other) := inferInstanceAs (Decidable (_ ∨ _))

theorem precedes_of_le (hle : entry.le other = true) (hne : entry ≠ other) :
    entry.Precedes other := by
  obtain ⟨kind, name⟩ := entry
  obtain ⟨otherKind, otherName⟩ := other
  have hnames (h : name ≤ otherName) (h' : name ≠ otherName) : name < otherName :=
    String.not_le.mp fun hback => h' (String.le_antisymm h hback)
  cases kind <;> cases otherKind <;> simp_all [le, Kind.before, Precedes]

theorem pairwise_precedes_sort (h : entries.Nodup) : (sort entries).Pairwise Precedes := by
  have hnodup : (sort entries).Pairwise (· ≠ ·) :=
    (List.mergeSort_perm entries le).nodup_iff.mpr h
  exact (pairwise_sort entries).imp₂ (fun _ _ hle hne => precedes_of_le hle hne) hnodup

/-- An entry that is added comes to stand among the others, which stay as they are. -/
theorem exists_sort_concat (entries : List Entry) (entry : Entry) :
    ∃ front back, sort entries = front ++ back ∧
      sort (entries ++ [entry]) = front ++ entry :: back := by
  have hperm : (sort (entries ++ [entry])).Perm (entries ++ [entry]) := List.mergeSort_perm _ le
  obtain ⟨front, back, hsort⟩ :=
    List.append_of_mem (hperm.mem_iff.mpr (List.mem_concat_self))
  refine ⟨front, back, ?_, hsort⟩
  have hsorted := pairwise_sort (entries ++ [entry])
  rw [hsort] at hperm hsorted
  -- without the entry the rest is sorted as well
  have hrest : (front ++ back).Pairwise fun entry other => entry.le other = true :=
    hsorted.sublist ((List.sublist_cons_self entry back).append_left front)
  have hsame : entries.Perm (front ++ back) := by
    have hcons := (List.perm_append_singleton entry entries).symm.trans
      (hperm.symm.trans List.perm_middle)
    exact hcons.cons_inv
  rw [sort_eq_of_perm hsame]
  exact List.mergeSort_of_pairwise hrest

end Entry

/-! ## The listing of one directory -/

namespace Node

/-- The entries list the given children: each child once, with its kind, the files before the
directories, and each group by name. -/
structure IsListing (children : List (String × Node)) (listed : List Entry) : Prop where
  /-- There is one entry for each child. -/
  length_eq : listed.length = children.length
  /-- No entry is shown twice. -/
  nodup : listed.Nodup
  /-- A name is shown with the kind of the child that it is looked up to, and no other name is. -/
  mem_iff : ∀ kind name, ⟨kind, name⟩ ∈ listed ↔ (children.lookup name).map Node.kind = some kind
  /-- Every entry stands before those that follow it. -/
  ordered : listed.Pairwise Entry.Precedes

variable {allowed : String → Prop} {children : List (String × Node)}

theorem listing_eq_sort (children : List (String × Node)) :
    listing children = Entry.sort (entries children) := rfl

/-- Where siblings have distinct names, a listing shows the kind of the node that a name is looked up
to. -/
theorem Named.mem_listing_iff (h : Named allowed (.directory children)) {kind : Kind}
    {name : String} :
    ⟨kind, name⟩ ∈ listing children ↔ (children.lookup name).map Node.kind = some kind := by
  rw [listing_eq_sort, Entry.sort, List.mem_mergeSort, mem_entries_iff, Option.map_eq_some_iff]
  cases h with
  | directory distinct names nodes =>
    constructor
    · rintro ⟨child, hmem, hkind⟩
      exact ⟨child, lookup_eq_some_of_mem distinct hmem, hkind.symm⟩
    · rintro ⟨child, hlookup, hkind⟩
      exact ⟨child, mem_of_lookup_eq_some hlookup, hkind.symm⟩

theorem Named.nodup_entries (h : Named allowed (.directory children)) :
    (entries children).Nodup := by
  cases h with
  | directory distinct names nodes => exact Node.nodup_entries distinct

theorem Named.isListing (h : Named allowed (.directory children)) :
    IsListing children (listing children) where
  length_eq := (List.length_mergeSort _).trans (List.length_map _)
  nodup := (List.mergeSort_perm _ _).nodup_iff.mpr h.nodup_entries
  mem_iff _ _ := h.mem_listing_iff
  ordered := Entry.pairwise_precedes_sort h.nodup_entries

end Node

namespace FileSystem

open Node

variable {fs after : FileSystem} {allowed : String → Prop} {children : List (String × Node)}

theorem list_of_walk? {path : String}
    (h : fs.root.walk? (Path.segments path) = some (.directory children)) :
    fs.list path = .ok (listing children) := by
  rw [list, resolveDirectory_eq_ok_iff.mpr h]
  rfl

/-- A directory has a listing. -/
theorem exists_isListing_list (h : fs.root.Named allowed) {path : String}
    (hpath : fs.isDirectory path = true) :
    ∃ children listed, fs.resolveDirectory path = .ok children ∧ fs.list path = .ok listed ∧
      IsListing children listed := by
  obtain ⟨children, hwalk⟩ := view_eq_directory_iff.mp (isDirectory_iff.mp hpath)
  exact ⟨children, listing children, resolveDirectory_eq_ok_iff.mpr hwalk, list_of_walk? hwalk,
    (h.walk? hwalk).isListing⟩

/-! ## Listings after a creation -/

/-- The kind of the new node. -/
def Creation.kind : Creation → Kind
  | directory _ => .directory
  | file _ _ | copy _ _ => .file

theorem Creation.kind_product? {creation : Creation} {new : Node}
    (h : creation.product? fs = some new) : new.kind = creation.kind := by
  cases creation with
  | directory path | file path content =>
    rw [← Option.some.inj h]
    rfl
  | copy source path =>
    obtain ⟨content, -, rfl⟩ := product?_copy_eq_some_iff.mp h
    rfl

namespace PointUpdate

variable {parent : List String} {leaf : String} {new : Node}

/-- In the listing of its parent the new entry comes to its place, and nothing else changes. -/
theorem exists_list_parent (h : PointUpdate fs parent leaf new after)
    (hnamed : fs.root.Named allowed) {path : String} (hpath : Path.segments path = parent) :
    ∃ front back, fs.list path = .ok (front ++ back) ∧
      after.list path = .ok (front ++ ⟨new.kind, leaf⟩ :: back) ∧
      (front ++ ⟨new.kind, leaf⟩ :: back).Pairwise Entry.Precedes := by
  obtain ⟨children, hbefore, hafter⟩ := h.children?_eq
  have hvacant : children.lookup leaf = none := (view_child_eq_none_iff hbefore).mp h.vacant
  rw [← hpath, children?_eq_some_iff] at hbefore hafter
  have hnodup : (entries (children ++ [(leaf, new)])).Nodup := by
    rw [← store_of_lookup_eq_none hvacant]
    cases hnamed.walk? hbefore with
    | directory distinct _ _ => exact nodup_entries (nodup_map_fst_store distinct leaf new)
  have hentries : entries (children ++ [(leaf, new)]) = entries children ++ [⟨new.kind, leaf⟩] :=
    List.map_append
  obtain ⟨front, back, hfront, hback⟩ :=
    Entry.exists_sort_concat (entries children) ⟨new.kind, leaf⟩
  rw [← hentries] at hback
  refine ⟨front, back, ?_, ?_, ?_⟩
  · rw [list_of_walk? hbefore, listing_eq_sort, hfront]
  · rw [list_of_walk? hafter, listing_eq_sort, hback]
  · rw [← hback]
    exact Entry.pairwise_precedes_sort hnodup

/-- Every other directory is listed as before. -/
theorem list_eq (h : PointUpdate fs parent leaf new after) {path : String}
    (hpath : fs.isDirectory path = true) (hne : Path.segments path ≠ parent) :
    after.list path = fs.list path := by
  have hview := isDirectory_iff.mp hpath
  have hleaf : Path.segments path ≠ parent ++ [leaf] := by
    intro heq
    rw [heq, h.vacant] at hview
    exact absurd hview (by simp)
  obtain ⟨children, hwalk⟩ := view_eq_directory_iff.mp hview
  have hentries := h.entries?_eq _ hne hleaf
  rw [entries?, entries?, children?_eq_some_iff.mpr hwalk, Option.map_some,
    Option.map_eq_some_iff] at hentries
  obtain ⟨others, hothers, hsame⟩ := hentries
  rw [list_of_walk? hwalk, list_of_walk? (children?_eq_some_iff.mp hothers), listing_eq_sort,
    listing_eq_sort, hsame]

end PointUpdate

/-- A directory is listed with each of its children once, and nothing else, in a strict order: files
before directories, and each group by name. The order in which the children are kept does not
matter. A creation that succeeds puts the new entry to its place in the listing of its parent, and
every other directory is listed as before. -/
theorem listing_is_exact_and_ordered (hnamed : fs.root.Named allowed) :
    (∀ path, fs.isDirectory path = true → ∃ children listed,
      fs.resolveDirectory path = .ok children ∧ fs.list path = .ok listed ∧
        IsListing children listed ∧ ∀ twin, fs.Reordered twin → twin.list path = .ok listed) ∧
    ∀ creation after, Creation.run fs creation = .ok after → ∃ parent leaf,
      Path.segments creation.target = parent ++ [leaf] ∧
      (∀ path, Path.segments path = parent → ∃ front back,
        fs.list path = .ok (front ++ back) ∧
          after.list path = .ok (front ++ ⟨creation.kind, leaf⟩ :: back) ∧
          (front ++ ⟨creation.kind, leaf⟩ :: back).Pairwise Entry.Precedes) ∧
      ∀ path, fs.isDirectory path = true → Path.segments path ≠ parent →
        after.list path = fs.list path := by
  constructor
  · intro path hpath
    obtain ⟨children, listed, hchildren, hlisted, hlisting⟩ := exists_isListing_list hnamed hpath
    refine ⟨children, listed, hchildren, hlisted, hlisting, ?_⟩
    intro twin htwin
    rw [← htwin.list_eq, hlisted]
  · intro creation after hrun
    obtain ⟨new, parent, leaf, hproduct, hsegments, hupdate⟩ := Creation.pointUpdate_of_run hrun
    rw [← Creation.kind_product? hproduct]
    exact ⟨parent, leaf, hsegments, fun _ => hupdate.exists_list_parent hnamed,
      fun _ => hupdate.list_eq⟩

/-- A file that is made in a directory with files and a directory is listed between the files. -/
theorem new_file_is_listed_between_files :
    let creation : Creation := .file "/b" "z"
    let children : List (String × Node) := [("a0", .empty), ("c", .file "x"), ("a", .file "y")]
    let fs : FileSystem := { root := .directory children }
    fs.root.Named (fun _ => True) ∧ ∃ after, creation.run fs = .ok after ∧
      fs.list "/" = .ok [⟨.file, "a"⟩, ⟨.file, "c"⟩, ⟨.directory, "a0"⟩] ∧
      after.list "/" =
        .ok [⟨.file, "a"⟩, ⟨.file, "b"⟩, ⟨.file, "c"⟩, ⟨.directory, "a0"⟩] := by
  intro creation children fs
  have hnamed : fs.root.Named fun _ => True := by
    refine .directory (by decide) (fun _ _ => trivial) ?_
    intro child hchild
    simp only [children, List.mem_cons, List.not_mem_nil, or_false] at hchild
    rcases hchild with rfl | rfl | rfl
    · exact .empty
    · exact .file "x"
    · exact .file "y"
  have hlist : fs.list "/" = .ok [⟨.file, "a"⟩, ⟨.file, "c"⟩, ⟨.directory, "a0"⟩] := by
    have hwalk : fs.root.walk? (Path.segments "/") = some (.directory children) := rfl
    have hperm : (entries children).Perm [⟨.file, "a"⟩, ⟨.file, "c"⟩, ⟨.directory, "a0"⟩] := by
      decide
    rw [list_of_walk? hwalk, listing_eq_sort, Entry.sort_eq_of_perm hperm, Entry.sort,
      List.mergeSort_of_pairwise (by decide)]
  obtain ⟨after, hrun⟩ : ∃ after, creation.run fs = .ok after := ⟨_, rfl⟩
  refine ⟨hnamed, after, hrun, hlist, ?_⟩
  obtain ⟨-, hcreated⟩ := listing_is_exact_and_ordered hnamed
  obtain ⟨parent, leaf, hsegments, hparent, -⟩ := hcreated creation after hrun
  have htarget : Path.segments creation.target = [] ++ ["b"] := by decide
  obtain ⟨rfl, hleaf⟩ := List.append_inj' (htarget.symm.trans hsegments) rfl
  obtain rfl := List.singleton_inj.mp hleaf
  obtain ⟨front, back, hbefore, hafter, hordered⟩ := hparent "/" (by decide)
  rw [hlist, Except.ok.injEq] at hbefore
  simp only [List.cons_eq_append_iff, List.nil_eq_append_iff] at hbefore
  -- only one of the places that the new entry could take leaves the listing in order
  rcases hbefore with ⟨rfl, rfl⟩ | ⟨_, rfl, ⟨rfl, rfl⟩ | ⟨_, rfl, ⟨rfl, rfl⟩ | ⟨_, rfl, rfl, rfl⟩⟩⟩
  · exact absurd hordered (by decide)
  · exact hafter
  · exact absurd hordered (by decide)
  · exact absurd hordered (by decide)

end FileSystem

end TreeShell
