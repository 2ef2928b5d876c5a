import Mathlib.Data.List.Perm.Basic
import TreeShell.Proofs.Naming

/-!
# The order of children

The children of a directory stand in the order in which they were added, and nobody can tell. Two
trees are one up to the order of children if their directories hold the same names and what stands
under each name is again one up to order. Such trees give the same answer to every question, the
listings included, because a listing is sorted by a total order; and a creation fails on both in the
same way, or succeeds on both and leads to trees that are again one up to order.
-/

namespace TreeShell

/-- Two results match if both are the same error, or if both are values that a relation holds
between. -/
inductive Matched {ε α β : Type} (R : α → β → Prop) : Except ε α → Except ε β → Prop where
  /-- Values that are related. -/
  | ok {first : α} {second : β} (h : R first second) : Matched R (.ok first) (.ok second)
  /-- The same error. -/
  | error (fault : ε) : Matched R (.error fault) (.error fault)

theorem Matched.map {ε α β γ δ : Type} {R : α → β → Prop} {S : γ → δ → Prop} {f : α → γ}
    {g : β → δ} {first : Except ε α} {second : Except ε β} (h : Matched R first second)
    (hfg : ∀ a b, R a b → S (f a) (g b)) : Matched S (first.map f) (second.map g) := by
  cases h with
  | ok hvalues => exact .ok (hfg _ _ hvalues)
  | error fault => exact .error fault

theorem Matched.mapError {ε ζ α β : Type} {R : α → β → Prop} {first : Except ε α}
    {second : Except ε β} (h : Matched R first second) (f : ε → ζ) :
    Matched R (first.mapError f) (second.mapError f) := by
  cases h with
  | ok hvalues => exact .ok hvalues
  | error fault => exact .error (f fault)

/-- Results whose values match as equals are equal. -/
theorem Matched.eq {ε α : Type} {first second : Except ε α} (h : Matched Eq first second) :
    first = second := by
  cases h with
  | ok hvalues => rw [hvalues]
  | error fault => rfl

/-- Options are related if both are empty or both hold related values. -/
theorem rel_cases {α β : Type} {R : α → β → Prop} {first : Option α} {second : Option β}
    (h : Option.Rel R first second) :
    (first = none ∧ second = none) ∨ ∃ a b, first = some a ∧ second = some b ∧ R a b := by
  cases h with
  | none => exact Or.inl ⟨rfl, rfl⟩
  | some hvalues => exact Or.inr ⟨_, _, rfl, rfl, hvalues⟩

/-! ## Sorted entries -/

theorem Entry.le_total (a b : Entry) : (a.le b || b.le a) = true := by
  have hnames := String.le_total a.name b.name
  cases ha : a.kind <;> cases hb : b.kind <;> simp [Entry.le, Kind.before, ha, hb, hnames]

theorem Entry.le_trans {a b c : Entry} (hab : a.le b = true) (hbc : b.le c = true) :
    a.le c = true := by
  have hnames (h : a.name ≤ b.name) (h' : b.name ≤ c.name) := String.le_trans h h'
  cases ha : a.kind <;> cases hb : b.kind <;> cases hc : c.kind <;>
    simp_all [Entry.le, Kind.before]

theorem Entry.le_antisymm {a b : Entry} (hab : a.le b = true) (hba : b.le a = true) : a = b := by
  obtain ⟨kind, name⟩ := a
  obtain ⟨kind', name'⟩ := b
  have hnames (h : name ≤ name') (h' : name' ≤ name) := String.le_antisymm h h'
  cases kind <;> cases kind' <;> simp_all [Entry.le, Kind.before]

theorem Entry.pairwise_sort (entries : List Entry) :
    (Entry.sort entries).Pairwise fun a b => a.le b = true := by
  refine List.pairwise_mergeSort ?_ Entry.le_total entries
  intro a b c hab hbc
  exact Entry.le_trans hab hbc

/-- The order of a listing is total, so that it leaves no choice. -/
theorem Entry.sort_eq_of_perm {entries others : List Entry} (h : entries.Perm others) :
    Entry.sort entries = Entry.sort others := by
  have hfirst := List.mergeSort_perm entries Entry.le
  have hsecond := List.mergeSort_perm others Entry.le
  exact List.Perm.eq_of_pairwise (fun a b _ _ => Entry.le_antisymm)
    (Entry.pairwise_sort entries) (Entry.pairwise_sort others)
    (hfirst.trans (h.trans hsecond.symm))

namespace Node

/-! ## Trees that are one up to order -/

/-- Two trees that are one up to the order of children: a directory answers to a directory whose
children have the same distinct names in some order, and what stands under one name in both is again
one up to order. -/
inductive Reordered : Node → Node → Prop where
  /-- A file answers to itself. -/
  | file (content : String) : Reordered (.file content) (.file content)
  /-- A directory answers to one with the same names, node by node. -/
  | directory {children others : List (String × Node)}
      (distinct : (children.map Prod.fst).Nodup)
      (names : (children.map Prod.fst).Perm (others.map Prod.fst))
      (nodes : ∀ name child other, (name, child) ∈ children → (name, other) ∈ others →
        Reordered child other) :
      Reordered (.directory children) (.directory others)

/-- A tree in which siblings have distinct names answers to itself. -/
theorem Named.reordered_refl {allowed : String → Prop} {node : Node} (h : node.Named allowed) :
    Reordered node node := by
  induction h with
  | file content => exact .file content
  | directory distinct _ _ ih =>
    refine .directory distinct (List.Perm.refl _) ?_
    intro name child other hchild hother
    have hlookup := lookup_eq_some_of_mem distinct hchild
    rw [lookup_eq_some_of_mem distinct hother] at hlookup
    rw [Option.some.inj hlookup]
    exact ih _ hchild

/-- Children may be put into any order. -/
theorem Named.reordered_of_perm {allowed : String → Prop} {children others : List (String × Node)}
    (h : Named allowed (.directory children)) (hperm : children.Perm others) :
    Reordered (.directory children) (.directory others) := by
  cases h.reordered_refl with
  | directory distinct _ nodes =>
    refine .directory distinct (hperm.map Prod.fst) ?_
    intro name child other hchild hother
    exact nodes name child other hchild (hperm.mem_iff.mpr hother)

theorem Reordered.symm {node twin : Node} (h : Reordered node twin) : Reordered twin node := by
  induction h with
  | file content => exact .file content
  | directory distinct names _ ih =>
    refine .directory (names.nodup_iff.mp distinct) names.symm ?_
    intro name child other hchild hother
    exact ih name other child hother hchild

theorem Reordered.surface_eq {node twin : Node} (h : Reordered node twin) :
    node.surface = twin.surface := by
  cases h <;> rfl

theorem Reordered.kind_eq {node twin : Node} (h : Reordered node twin) : node.kind = twin.kind := by
  cases h <;> rfl

theorem Reordered.nodup_map_fst {children : List (String × Node)} {twin : Node}
    (h : Reordered (.directory children) twin) : (children.map Prod.fst).Nodup := by
  cases h with
  | directory distinct _ _ => exact distinct

/-! ## Questions -/

variable {node twin : Node} {children others : List (String × Node)}

theorem exists_mem_of_mem_map_fst {name : String} (h : name ∈ children.map Prod.fst) :
    ∃ child, (name, child) ∈ children := by
  obtain ⟨⟨other, child⟩, hchild, rfl⟩ := List.mem_map.mp h
  exact ⟨child, hchild⟩

/-- A tree that answers to another one is named in the same way. -/
theorem Reordered.named {allowed : String → Prop} (h : Reordered node twin)
    (hnode : node.Named allowed) : twin.Named allowed := by
  induction h with
  | file content => exact .file content
  | @directory children others distinct names _ ih =>
    have hmate : ∀ other ∈ others, ∃ child, (other.1, child) ∈ children := by
      intro other hother
      exact exists_mem_of_mem_map_fst (names.mem_iff.mpr (List.mem_map_of_mem hother))
    cases hnode with
    | directory _ hallowed hnodes =>
      refine .directory (names.nodup_iff.mp distinct) ?_ ?_
      · intro other hother
        obtain ⟨child, hchild⟩ := hmate other hother
        exact hallowed (other.1, child) hchild
      · intro other hother
        obtain ⟨child, hchild⟩ := hmate other hother
        exact ih other.1 child other.2 hchild hother (hnodes _ hchild)

theorem Reordered.wellFormed (h : Reordered node twin) (hnode : node.WellFormed) :
    twin.WellFormed := by
  have hkind := hnode.isDirectory
  cases h with
  | file content => exact absurd hkind (by simp [isDirectory])
  | directory distinct names nodes =>
    exact ⟨rfl, Reordered.named (.directory distinct names nodes) hnode.named⟩

/-- Children of one name are one up to order, wherever they stand. -/
theorem Reordered.lookup (h : Reordered (.directory children) (.directory others)) (name : String) :
    Option.Rel Reordered (children.lookup name) (others.lookup name) := by
  have hothers : (others.map Prod.fst).Nodup := h.symm.nodup_map_fst
  cases h with
  | directory distinct names nodes =>
    by_cases hname : name ∈ children.map Prod.fst
    · obtain ⟨child, hchild⟩ := exists_mem_of_mem_map_fst hname
      obtain ⟨other, hother⟩ := exists_mem_of_mem_map_fst (names.mem_iff.mp hname)
      rw [lookup_eq_some_of_mem distinct hchild, lookup_eq_some_of_mem hothers hother]
      exact .some (nodes name child other hchild hother)
    · have hother : name ∉ others.map Prod.fst := fun hmem => hname (names.mem_iff.mpr hmem)
      rw [FileSystem.lookup_eq_none_iff_not_mem.mpr hname,
        FileSystem.lookup_eq_none_iff_not_mem.mpr hother]
      exact .none

/-- A walk leads to nodes that are one up to order, or nowhere in both trees. -/
theorem Reordered.walk? (h : Reordered node twin) (names : List String) :
    Option.Rel Reordered (node.walk? names) (twin.walk? names) := by
  induction names generalizing node twin with
  | nil =>
    rw [walk?_nil, walk?_nil]
    exact .some h
  | cons name names ih =>
    have hnodes := h
    cases h with
    | file content => exact .none
    | directory _ _ _ =>
      rw [Node.walk?, Node.walk?]
      rcases rel_cases (hnodes.lookup name) with
        ⟨hnone, htwin⟩ | ⟨child, other, hsome, htwin, hchild⟩
      · rw [hnone, htwin]
        exact .none
      · rw [hsome, htwin]
        exact ih hchild

theorem Reordered.view_eq (h : Reordered node twin) (names : List String) :
    node.view names = twin.view names := by
  rw [view, view]
  rcases rel_cases (h.walk? names) with ⟨hnone, htwin⟩ | ⟨inner, other, hsome, htwin, hinner⟩
  · rw [hnone, htwin]
  · rw [hsome, htwin, Option.map_some, Option.map_some, hinner.surface_eq]

theorem view_cons_of_mem {name : String} {child : Node}
    (hdistinct : (children.map Prod.fst).Nodup) (hchild : (name, child) ∈ children)
    (names : List String) : (directory children).view (name :: names) = child.view names := by
  rw [view, walk?_cons, children?, Option.bind_some, lookup_eq_some_of_mem hdistinct hchild]
  rfl

theorem mem_map_fst_iff_view {name : String} :
    name ∈ children.map Prod.fst ↔ (directory children).view [name] ≠ none := by
  rw [view, walk?_cons, children?, Option.bind_some,
    Option.bind_congr fun child _ => walk?_nil child, Option.bind_fun_some, ne_eq,
    Option.map_eq_none_iff, FileSystem.lookup_eq_none_iff_not_mem, not_not]

/-- Trees with distinct siblings that look the same are one up to order. -/
theorem Named.reordered_of_view_eq {allowed permitted : String → Prop}
    (hnode : node.Named allowed) (htwin : twin.Named permitted)
    (hview : ∀ names, node.view names = twin.view names) : Reordered node twin := by
  induction hnode generalizing twin with
  | file content =>
    have hroot := hview []
    rw [view_nil, view_nil] at hroot
    cases htwin with
    | file other =>
      rw [Surface.file.inj (Option.some.inj hroot)]
      exact .file other
    | directory _ _ _ => exact absurd hroot (by simp [surface])
  | @directory children distinct _ _ ih =>
    cases htwin with
    | file other =>
      have hroot := hview []
      rw [view_nil, view_nil] at hroot
      exact absurd hroot (by simp [surface])
    | @directory others hdistinct _ hnodes =>
      refine .directory distinct ?_ ?_
      · rw [List.perm_ext_iff_of_nodup distinct hdistinct]
        intro name
        rw [mem_map_fst_iff_view, mem_map_fst_iff_view, hview]
      · -- below a common name both look as the trees look behind it
        intro name child other hchild hother
        refine ih (name, child) hchild (hnodes _ hother) ?_
        intro names
        rw [← view_cons_of_mem distinct hchild, ← view_cons_of_mem hdistinct hother, hview]

theorem nodup_entries (h : (children.map Prod.fst).Nodup) : (entries children).Nodup := by
  refine List.Nodup.of_map Entry.name ?_
  rw [entries, List.map_map]
  exact h

theorem mem_entries_iff {kind : Kind} {name : String} :
    ⟨kind, name⟩ ∈ entries children ↔ ∃ child, (name, child) ∈ children ∧ kind = child.kind := by
  rw [entries, List.mem_map]
  constructor
  · rintro ⟨⟨other, child⟩, hchild, hentry⟩
    obtain ⟨rfl, rfl⟩ := Entry.mk.inj hentry
    exact ⟨child, hchild, rfl⟩
  · rintro ⟨child, hchild, rfl⟩
    exact ⟨(name, child), hchild, rfl⟩

theorem Reordered.entries_perm (h : Reordered (.directory children) (.directory others)) :
    (entries children).Perm (entries others) := by
  have hforth : ∀ {children others : List (String × Node)},
      Reordered (.directory children) (.directory others) →
        ∀ entry ∈ entries children, entry ∈ entries others := by
    intro children others h entry hentry
    obtain ⟨child, hchild, hkind⟩ := mem_entries_iff.mp hentry
    cases h with
    | directory distinct names nodes =>
      have hname : entry.name ∈ others.map Prod.fst :=
        names.mem_iff.mp (List.mem_map.mpr ⟨_, hchild, rfl⟩)
      obtain ⟨other, hother⟩ := exists_mem_of_mem_map_fst hname
      have hsame := nodes _ _ _ hchild hother
      exact mem_entries_iff.mpr ⟨other, hother, by rw [hkind, hsame.kind_eq]⟩
  rw [List.perm_ext_iff_of_nodup (nodup_entries h.nodup_map_fst)
    (nodup_entries h.symm.nodup_map_fst)]
  exact fun entry => ⟨hforth h entry, hforth h.symm entry⟩

/-- The listing of a directory does not tell the order of its children. -/
theorem Reordered.listing_eq (h : Reordered (.directory children) (.directory others)) :
    listing children = listing others :=
  Entry.sort_eq_of_perm h.entries_perm

/-! ## Storing -/

theorem Reordered.store {new other : Node} (h : Reordered (.directory children) (.directory others))
    (name : String) (hnew : Reordered new other) :
    Reordered (.directory (store name new children)) (.directory (store name other others)) := by
  have hchildren := nodup_map_fst_store h.nodup_map_fst name new
  have hothers := nodup_map_fst_store h.symm.nodup_map_fst name other
  cases h with
  | directory distinct names nodes =>
    refine .directory hchildren ?_ ?_
    · rw [map_fst_store, map_fst_store]
      simp only [names.mem_iff]
      split_ifs
      · exact names
      · exact names.append_right [name]
    · intro key child inner hchild hinner
      -- names are distinct, so that each entry is what a look-up finds
      have hchild := lookup_eq_some_of_mem hchildren hchild
      have hinner := lookup_eq_some_of_mem hothers hinner
      rw [lookup_store] at hchild hinner
      split_ifs at hchild hinner with hkey
      · rw [← Option.some.inj hchild, ← Option.some.inj hinner]
        exact hnew
      · exact nodes key child inner (mem_of_lookup_eq_some hchild) (mem_of_lookup_eq_some hinner)

theorem Reordered.storeAt? {new other : Node} (h : Reordered node twin) (leaf : String)
    (hnew : Reordered new other) (parent : List String) :
    Option.Rel Reordered (node.storeAt? leaf new parent) (twin.storeAt? leaf other parent) := by
  induction parent generalizing node twin with
  | nil =>
    have hnodes := h
    cases h with
    | file content => exact .none
    | directory _ _ _ => exact .some (hnodes.store leaf hnew)
  | cons next parent ih =>
    have hnodes := h
    cases h with
    | file content => exact .none
    | directory _ _ _ =>
      rw [Node.storeAt?, Node.storeAt?]
      rcases rel_cases (hnodes.lookup next) with
        ⟨hnone, htwin⟩ | ⟨child, mate, hsome, htwin, hchild⟩
      · rw [hnone, htwin]
        exact .none
      · rw [hsome, htwin, Option.bind_some, Option.bind_some]
        rcases rel_cases (ih hchild) with ⟨hnone, htwin⟩ | ⟨inner, now, hsome, htwin, hchanged⟩
        · rw [hnone, htwin]
          exact .none
        · rw [hsome, htwin]
          exact .some (hnodes.store next hchanged)

end Node

namespace FileSystem

open Node

/-! ## File systems that are one up to order -/

/-- Two file systems that were read from one document and whose trees are one up to order. -/
structure Reordered (fs twin : FileSystem) : Prop where
  /-- The trees are one up to order. -/
  root : fs.root.Reordered twin.root
  /-- The document is the same. -/
  source_eq : fs.source = twin.source

theorem matched_descend {node twin : Node} (h : node.Reordered twin) (names : List String) :
    Matched (fun children others => Node.Reordered (.directory children) (.directory others))
      (descend node names) (descend twin names) := by
  induction names generalizing node twin with
  | nil =>
    have hnodes := h
    cases h with
    | file content => exact .error _
    | directory _ _ _ => exact .ok hnodes
  | cons name names ih =>
    have hnodes := h
    cases h with
    | file content => exact .error _
    | directory _ _ _ =>
      rw [descend, descend]
      rcases rel_cases (hnodes.lookup name) with
        ⟨hnone, htwin⟩ | ⟨child, mate, hsome, htwin, hchild⟩
      · rw [hnone, htwin]
        exact .error _
      · rw [hsome, htwin]
        exact ih hchild

variable {fs twin : FileSystem}

theorem Reordered.view_eq (h : fs.Reordered twin) (names : List String) :
    fs.view names = twin.view names :=
  h.root.view_eq names

theorem Reordered.exists?_eq (h : fs.Reordered twin) (path : String) :
    fs.exists? path = twin.exists? path := by
  rw [FileSystem.exists?_eq, FileSystem.exists?_eq, h.view_eq]

theorem Reordered.read_eq (h : fs.Reordered twin) (path : String) :
    fs.read path = twin.read path := by
  rw [FileSystem.read_eq, FileSystem.read_eq, h.view_eq]

theorem Reordered.isDirectory_eq (h : fs.Reordered twin) (path : String) :
    fs.isDirectory path = twin.isDirectory path := by
  rw [Bool.eq_iff_iff, isDirectory_iff, isDirectory_iff, h.view_eq]

theorem Reordered.list_eq (h : fs.Reordered twin) (path : String) :
    fs.list path = twin.list path := by
  have hdescend := matched_descend h.root (Path.segments path)
  exact ((hdescend.mapError _).map fun _ _ hchildren => hchildren.listing_eq).eq

/-! ## Creations -/

/-- Adding a node fails on both for one reason, or adds it to both. -/
theorem Reordered.matched_add (h : fs.Reordered twin) (path : String) {new : Node}
    (hnew : new.Reordered new) (operation : String) :
    Matched Reordered (fs.add path new operation) (twin.add path new operation) := by
  have htaken_iff : fs.IsTaken path ↔ twin.IsTaken path := by
    rw [IsTaken, IsTaken, h.view_eq]
  have hlacks_iff : fs.LacksParent path ↔ twin.LacksParent path := by
    simp only [LacksParent, h.view_eq]
  rcases fs.add_cases path new operation with ⟨htaken, hadd⟩ | ⟨hlacks, hadd⟩ | ⟨hfree, hadd⟩
  · rw [hadd, add_eq_error_iff.mpr (Or.inl ⟨htaken_iff.mp htaken, rfl⟩)]
    exact .error _
  · rw [hadd, add_eq_error_iff.mpr (Or.inr ⟨hlacks_iff.mp hlacks, rfl⟩)]
    exact .error _
  · rcases twin.add_cases path new operation with
      ⟨htaken, -⟩ | ⟨hlacks, -⟩ | ⟨-, parent, leaf, now, hsegments, hnow, hnowSource, hadd'⟩
    · exact absurd (htaken_iff.mpr htaken) (not_isTaken_of_isFree hfree)
    · exact absurd (hlacks_iff.mpr hlacks) (not_lacksParent_of_isFree hfree)
    · obtain ⟨front, last, after, hsegments', hafter, hafterSource, hadd⟩ := hadd
      -- both are stored at the one place that the path names
      obtain ⟨rfl, hlast⟩ := List.append_inj' (hsegments.symm.trans hsegments') rfl
      obtain rfl := List.singleton_inj.mp hlast
      have hroots := h.root.storeAt? leaf hnew parent
      rw [hafter, hnow] at hroots
      rw [hadd, hadd']
      cases hroots with
      | some hroot =>
        refine .ok ⟨hroot, ?_⟩
        rw [hafterSource, hnowSource, h.source_eq]

/-- A creation does the same to both. -/
theorem Reordered.matched_run (h : fs.Reordered twin) (creation : Creation) :
    Matched Reordered (creation.run fs) (creation.run twin) := by
  cases creation with
  | directory path =>
    have hempty : Named (fun _ => True) Node.empty := .empty
    exact h.matched_add path hempty.reordered_refl "mkdir"
  | file path content => exact h.matched_add path (.file content) "open"
  | copy source path =>
    rw [Creation.run, Creation.run, copyFile, copyFile, h.read_eq]
    cases twin.read source with
    | ok content => exact h.matched_add path (.file content) "copyfile"
    | error failure => exact .error _

end FileSystem

end TreeShell
