import TreeShell.Document.Loading
import TreeShell.Proofs.Naming
import TreeShell.Proofs.Runs

/-!
# Well-formed trees

The tree that is built from a document is well formed, because every name is checked before a node
is stored under it, and later siblings take the place of earlier ones of the same name. No line that
is executed changes that. In every tree that a session can come to, every node therefore has a
canonical path that leads to it.
-/

namespace TreeShell

open Node

namespace Document

theorem bind_eq_ok_iff {ε α β : Type} {first : Except ε α} {next : α → Except ε β} {result : β} :
    first.bind next = .ok result ↔ ∃ value, first = .ok value ∧ next value = .ok result := by
  cases first <;> simp [Except.bind]

theorem isNodeName_iff {name : String} : isNodeName name = true ↔ Path.IsName name := by
  simp [isNodeName, Path.IsName, and_assoc]

theorem checkName_eq_ok_iff {name path : String} :
    checkName name path = .ok () ↔ Path.IsName name := by
  rw [← isNodeName_iff, checkName]
  split_ifs with hname
  · exact iff_of_true rfl hname
  · exact iff_of_false (by simp) hname

/-! ## Building -/

mutual

/-- A node that is built has a name that a path can hold, and so have the nodes below it. -/
theorem named_of_build {path name : String} {declaration : Declaration} {node : Node}
    (h : declaration.build path = .ok (name, node)) :
    Path.IsName name ∧ node.Named Path.IsName := by
  cases declaration with
  | directory label children =>
    rw [Declaration.build] at h
    obtain ⟨_, hcheck, h⟩ := bind_eq_ok_iff.mp h
    obtain ⟨built, hbuilt, h⟩ := bind_eq_ok_iff.mp h
    obtain ⟨rfl, rfl⟩ := Prod.mk.inj (Except.ok.inj h)
    exact ⟨checkName_eq_ok_iff.mp hcheck, named_of_buildChildren .empty hbuilt⟩
  | file label content encoding =>
    rw [Declaration.build] at h
    obtain ⟨_, hcheck, h⟩ := bind_eq_ok_iff.mp h
    obtain ⟨rfl, rfl⟩ := Prod.mk.inj (Except.ok.inj h)
    exact ⟨checkName_eq_ok_iff.mp hcheck, .file _⟩

theorem named_of_buildChildren {path : String} {built children : List (String × Node)}
    {declarations : List Declaration} (hbuilt : Named Path.IsName (.directory built))
    (h : buildChildren path built declarations = .ok children) :
    Named Path.IsName (.directory children) := by
  cases declarations with
  | nil =>
    rw [buildChildren] at h
    rwa [← Except.ok.inj h]
  | cons declaration declarations =>
    rw [buildChildren] at h
    obtain ⟨⟨name, node⟩, hnode, h⟩ := bind_eq_ok_iff.mp h
    obtain ⟨hname, hnamed⟩ := named_of_build hnode
    exact named_of_buildChildren (hbuilt.store hname hnamed) h

end

theorem Declaration.wellFormed_of_tree {declaration : Declaration} {root : Node}
    (h : declaration.tree = .ok root) : root.WellFormed := by
  cases declaration with
  | directory name children =>
    rw [Declaration.tree] at h
    obtain ⟨built, hbuilt, h⟩ := bind_eq_ok_iff.mp h
    rw [← Except.ok.inj h]
    exact ⟨rfl, named_of_buildChildren .empty hbuilt⟩
  | file name content encoding => exact absurd h (by simp [Declaration.tree])

theorem wellFormed_of_parse {format : Format} {text : String} {root : Node}
    (h : parse format text = .ok root) : root.WellFormed := by
  rw [parse] at h
  obtain ⟨declaration, -, htree⟩ := bind_eq_ok_iff.mp h
  exact declaration.wellFormed_of_tree htree

/-! ## Loading -/

/-- A tree as a session can start with it: read from a text, or empty. -/
inductive Loaded : FileSystem → Prop where
  | parsed {format : Format} {text : String} {root : Node} (h : parse format text = .ok root)
      (source : Option String) : Loaded (FileSystem.ofRoot root source)
  | empty (source : Option String) : Loaded { FileSystem.empty with source }

theorem Loaded.wellFormed {fs : FileSystem} (h : Loaded fs) : fs.root.WellFormed := by
  cases h with
  | @parsed format text root h source =>
    have hroot := wellFormed_of_parse h
    rwa [(FileSystem.ofRoot_of_isDirectory root source hroot.isDirectory).1]
  | empty source => exact ⟨rfl, .empty⟩

theorem loaded_loadOrEmpty (host : Host) (path : String) : Loaded (loadOrEmpty host path) := by
  unfold loadOrEmpty load
  cases host.readText path with
  | error failure => exact .empty (some path)
  | ok text =>
    simp only
    cases hparse : parse (Format.ofPath path) text with
    | error fault => exact .empty (some path)
    | ok root => exact .parsed hparse (some path)

theorem wellFormed_loadOrEmpty (host : Host) (path : String) :
    (loadOrEmpty host path).root.WellFormed :=
  (loaded_loadOrEmpty host path).wellFormed

end Document

/-! ## Sessions -/

namespace Session

/-- If a tree is loaded, it is well formed. -/
def WellFormed (session : Session) : Prop :=
  ∀ fs, session.fileSystem = some fs → fs.root.WellFormed

theorem wellFormed_start (host : Host) (config : Config) :
    (Session.start host config).WellFormed := by
  intro fs hfs
  obtain ⟨path, -, rfl⟩ := Option.map_eq_some_iff.mp hfs
  exact Document.wellFormed_loadOrEmpty host path

theorem Change.wellFormed {session changed : Session} (h : session.WellFormed)
    (hchange : session.Change changed) : changed.WellFormed := by
  cases hchange with
  | same => exact h
  | moved => exact h
  | grown hbefore hgrowth =>
    intro fs hfs
    rw [← Option.some.inj hfs]
    exact hgrowth.wellFormed (h _ hbefore)

/-- No line spoils the tree. -/
theorem invariant_wellFormed : Invariant WellFormed where
  change := Change.wellFormed
  settle := by
    intro session status h fs hfs
    rw [ensureCursor_fileSystem] at hfs
    exact h fs hfs

/-- A tree that is read from a text, in whichever format, is well formed, and so are the empty tree
and the tree that a session starts with, whatever its document is. From a well-formed tree every run
of lines leads to a well-formed tree, in which every node can be addressed: the path written from
the names on the way to the node is canonical and leads to the node. -/
theorem trees_stay_well_formed :
    (∀ format text root, Document.parse format text = .ok root → root.WellFormed) ∧
    FileSystem.empty.root.WellFormed ∧
    (∀ host path, (Document.loadOrEmpty host path).root.WellFormed) ∧
    (∀ host config, (Session.start host config).WellFormed) ∧
    ∀ session : Session, session.WellFormed → ∀ lines,
      (session.run lines).WellFormed ∧
      ∀ fs, (session.run lines).fileSystem = some fs →
        ∀ names node, fs.root.Holds names node →
          Path.normalize (Path.render names) = Path.render names ∧
          fs.node? (Path.render names) = some node := by
  refine ⟨fun _ _ _ => Document.wellFormed_of_parse, ⟨rfl, .empty⟩,
    Document.wellFormed_loadOrEmpty, wellFormed_start, ?_⟩
  intro session hsession lines
  have hrun : (session.run lines).WellFormed := invariant_wellFormed.run hsession lines
  refine ⟨hrun, ?_⟩
  intro fs hfs names node hholds
  exact FileSystem.addressable_of_holds (hrun fs hfs) hholds

end Session

end TreeShell
