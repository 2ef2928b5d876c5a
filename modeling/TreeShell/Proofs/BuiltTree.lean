import TreeShell.Proofs.LoadedTree

/-!
# Trees that are built from declarations

Building goes through the declarations in the order of the document. Every name counts, also below a
directory that a later sibling of its name replaces: building succeeds just when each of them is one
that a path can hold, and else the first one that is not is the fault, with the path of the
directory it stands in. In a tree that is built, the last declaration of a name says what stands
under that name, all by itself: nothing of an earlier one is kept.
-/

namespace TreeShell.Document

open Node

/-! ## Names in the order of the document -/

/-- The name of the node that is declared. -/
def Declaration.name : Declaration → String
  | .directory name _ => name
  | .file name _ _ => name

mutual

/-- The names that a declaration gives, its own one first, each with the path of the directory that
it stands in. -/
def Declaration.places (path : String) : Declaration → List (String × String)
  | .directory name children => (name, path) :: places (path ++ "/" ++ name) children
  | .file name _ _ => [(name, path)]

/-- The names that declarations give below the directory at `path`, in the order of the document. -/
def places (path : String) : List Declaration → List (String × String)
  | [] => []
  | declaration :: declarations => declaration.places path ++ places path declarations

end

/-- The fault of the first name that no path can hold. -/
def FirstFault (places : List (String × String)) (fault : Malformation) : Prop :=
  ∃ before name path after, places = before ++ (name, path) :: after ∧
    (∀ place ∈ before, Path.IsName place.1) ∧ ¬Path.IsName name ∧ fault = .invalidName name path

/-- What the names in `places` make of a result: a success if all of them can be part of a path, and
else the fault of the first one that cannot. -/
inductive Decides {α : Type} (places : List (String × String)) : Except Malformation α → Prop
  | ok (hnames : ∀ place ∈ places, Path.IsName place.1) (value : α) : Decides places (.ok value)
  | error {fault : Malformation} (hfault : FirstFault places fault) : Decides places (.error fault)

theorem FirstFault.not_forall {places : List (String × String)} {fault : Malformation}
    (h : FirstFault places fault) : ¬∀ place ∈ places, Path.IsName place.1 := by
  obtain ⟨before, name, path, after, rfl, -, hname, -⟩ := h
  intro hnames
  exact hname (hnames (name, path) (by simp))

/-- There is one first name that no path can hold. -/
theorem FirstFault.eq {places : List (String × String)} {fault other : Malformation}
    (h : FirstFault places fault) (hother : FirstFault places other) : fault = other := by
  have hfind : ∀ {fault : Malformation}, FirstFault places fault → ∃ place : String × String,
      places.find? (fun place => !isNodeName place.1) = some place ∧
        fault = .invalidName place.1 place.2 := by
    rintro _ ⟨before, name, path, after, hplaces, hbefore, hname, rfl⟩
    refine ⟨(name, path), ?_, rfl⟩
    refine List.find?_eq_some_iff_append.mpr ⟨?_, before, after, hplaces, ?_⟩
    · simpa [← isNodeName_iff] using hname
    · intro place hplace
      simpa [← isNodeName_iff] using hbefore place hplace
  obtain ⟨place, hplace, rfl⟩ := hfind h
  obtain ⟨place', hplace', rfl⟩ := hfind hother
  rw [hplace] at hplace'
  rw [Option.some.inj hplace']

section Decides

variable {α β : Type} {front back : List (String × String)} {first : Except Malformation α}

theorem decides_checkName (name path : String) : Decides [(name, path)] (checkName name path) := by
  by_cases hname : Path.IsName name
  · rw [checkName_eq_ok_iff.mpr hname]
    refine .ok ?_ ()
    intro place hplace
    rwa [List.mem_singleton.mp hplace]
  · rw [checkName, if_neg (by rwa [isNodeName_iff])]
    refine .error ⟨[], name, path, [], rfl, ?_, hname, rfl⟩
    exact fun place hplace => absurd hplace List.not_mem_nil

/-- What comes after a step is decided by the names that are left, if the step succeeds. -/
theorem Decides.bind (hfirst : Decides front first) {next : α → Except Malformation β}
    (hnext : ∀ value, first = .ok value → Decides back (next value)) :
    Decides (front ++ back) (first.bind next) := by
  cases hfirst with
  | error hfault =>
    obtain ⟨before, name, path, after, rfl, hbefore, hname, rfl⟩ := hfault
    refine .error ⟨before, name, path, after ++ back, by simp, hbefore, hname, rfl⟩
  | ok hfront value =>
    have hrest := hnext value rfl
    show Decides (front ++ back) (next value)
    cases hresult : next value with
    | ok result =>
      rw [hresult] at hrest
      cases hrest with
      | ok hback => exact .ok (List.forall_mem_append.mpr ⟨hfront, hback⟩) result
    | error fault =>
      rw [hresult] at hrest
      cases hrest with
      | error hfault =>
        obtain ⟨before, name, path, after, rfl, hbefore, hname, rfl⟩ := hfault
        refine .error ⟨front ++ before, name, path, after, by simp, ?_, hname, rfl⟩
        exact List.forall_mem_append.mpr ⟨hfront, hbefore⟩

theorem Decides.map (hfirst : Decides front first) (f : α → β) :
    Decides front (first.map f) := by
  cases hfirst with
  | ok hnames value => exact .ok hnames (f value)
  | error hfault => exact .error hfault

theorem Decides.exists_eq_ok_iff (h : Decides front first) :
    (∃ value, first = .ok value) ↔ ∀ place ∈ front, Path.IsName place.1 := by
  cases h with
  | ok hnames value => exact iff_of_true ⟨value, rfl⟩ hnames
  | error hfault => exact iff_of_false (by simp) hfault.not_forall

theorem Decides.eq_error_iff (h : Decides front first) (fault : Malformation) :
    first = .error fault ↔ FirstFault front fault := by
  cases h with
  | ok hnames value => exact iff_of_false (by simp) fun hfault => hfault.not_forall hnames
  | @error other hother =>
    constructor
    · intro hresult
      rwa [← Except.error.inj hresult]
    · intro hfault
      rw [hother.eq hfault]

end Decides

/-! ## Building checks every name -/

mutual

theorem decides_build (path : String) (declaration : Declaration) :
    Decides (declaration.places path) (declaration.build path) := by
  cases declaration with
  | directory name children =>
    rw [Declaration.build, Declaration.places, ← List.singleton_append]
    refine (decides_checkName name path).bind fun _ _ => ?_
    exact (decides_buildChildren (path ++ "/" ++ name) [] children).map _
  | file name content encoding =>
    rw [Declaration.build, Declaration.places]
    exact (decides_checkName name path).map _

theorem decides_buildChildren (path : String) (built : List (String × Node))
    (declarations : List Declaration) :
    Decides (places path declarations) (buildChildren path built declarations) := by
  cases declarations with
  | nil =>
    rw [buildChildren, places]
    exact .ok (fun place hplace => absurd hplace List.not_mem_nil) built
  | cons declaration declarations =>
    rw [buildChildren, places]
    refine (decides_build path declaration).bind ?_
    rintro ⟨name, node⟩ -
    exact decides_buildChildren path (store name node built) declarations

end

/-! ## The last declaration of a name counts -/

theorem name_of_build {path name : String} {declaration : Declaration} {node : Node}
    (h : declaration.build path = .ok (name, node)) : name = declaration.name := by
  cases declaration with
  | directory label children =>
    rw [Declaration.build] at h
    obtain ⟨_, -, h⟩ := bind_eq_ok_iff.mp h
    obtain ⟨built, -, h⟩ := bind_eq_ok_iff.mp h
    exact (Prod.mk.inj (Except.ok.inj h)).1.symm
  | file label content encoding =>
    rw [Declaration.build] at h
    obtain ⟨_, -, h⟩ := bind_eq_ok_iff.mp h
    exact (Prod.mk.inj (Except.ok.inj h)).1.symm

section Lookup

variable {path name : String} {built children : List (String × Node)}

/-- A name that no declaration gives is looked up to what was there before. -/
theorem lookup_buildChildren_of_forall {declarations : List Declaration}
    (h : buildChildren path built declarations = .ok children)
    (hname : ∀ declaration ∈ declarations, declaration.name ≠ name) :
    children.lookup name = built.lookup name := by
  induction declarations generalizing built with
  | nil =>
    rw [buildChildren] at h
    rw [← Except.ok.inj h]
  | cons declaration declarations ih =>
    obtain ⟨hfirst, hothers⟩ := List.forall_mem_cons.mp hname
    rw [buildChildren] at h
    obtain ⟨⟨label, node⟩, hnode, h⟩ := bind_eq_ok_iff.mp h
    have hne : name ≠ label := by
      rw [name_of_build hnode]
      exact Ne.symm hfirst
    rw [ih h hothers, lookup_store, if_neg hne]

/-- A name is looked up to the node that its last declaration builds. -/
theorem lookup_buildChildren_of_last {front back : List Declaration} {declaration : Declaration}
    (h : buildChildren path built (front ++ declaration :: back) = .ok children)
    (hback : ∀ other ∈ back, other.name ≠ declaration.name) :
    ∃ node, declaration.build path = .ok (declaration.name, node) ∧
      children.lookup declaration.name = some node := by
  induction front generalizing built with
  | nil =>
    rw [List.nil_append, buildChildren] at h
    obtain ⟨⟨label, node⟩, hnode, h⟩ := bind_eq_ok_iff.mp h
    obtain rfl : label = declaration.name := name_of_build hnode
    refine ⟨node, hnode, ?_⟩
    rw [lookup_buildChildren_of_forall h hback, lookup_store, if_pos rfl]
  | cons first front ih =>
    rw [List.cons_append, buildChildren] at h
    obtain ⟨⟨label, node⟩, -, h⟩ := bind_eq_ok_iff.mp h
    exact ih h

end Lookup

theorem walk?_directory_cons (children : List (String × Node)) (name : String)
    (names : List String) : walk? (.directory children) (name :: names) =
      (children.lookup name).bind fun child => child.walk? names := by
  rw [walk?_cons, children?, Option.bind_some]

/-- Declarations are built into the children of a directory just when every name below them is one
that a path can hold, the names that are not kept included; else the first other name in the order
of the document is the fault, with the path of the directory that it stands in. Of the children that
are built, the last declaration of a name tells what a walk finds behind that name: a file with the
decoded content, or the directory that its own declarations build. Behind a name that is not
declared there is nothing. -/
theorem building_checks_all_and_keeps_last (path : String) (declarations : List Declaration) :
    ((∃ children, buildChildren path [] declarations = .ok children) ↔
      ∀ place ∈ places path declarations, Path.IsName place.1) ∧
    (∀ fault, buildChildren path [] declarations = .error fault ↔
      FirstFault (places path declarations) fault) ∧
    ∀ children, buildChildren path [] declarations = .ok children →
      (∀ front name content encoding back,
        declarations = front ++ .file name content encoding :: back →
        (∀ other ∈ back, other.name ≠ name) →
        ∀ rest, walk? (.directory children) (name :: rest) =
          walk? (.file (decodeContent content encoding)) rest) ∧
      (∀ front name inner back, declarations = front ++ .directory name inner :: back →
        (∀ other ∈ back, other.name ≠ name) →
        ∃ built, buildChildren (path ++ "/" ++ name) [] inner = .ok built ∧
          ∀ rest, walk? (.directory children) (name :: rest) = walk? (.directory built) rest) ∧
      ∀ name, (∀ declaration ∈ declarations, declaration.name ≠ name) →
        ∀ rest, walk? (.directory children) (name :: rest) = none := by
  have hdecides := decides_buildChildren path [] declarations
  refine ⟨hdecides.exists_eq_ok_iff, hdecides.eq_error_iff, ?_⟩
  intro children hchildren
  refine ⟨?_, ?_, ?_⟩
  · rintro front name content encoding back rfl hback rest
    obtain ⟨node, hnode, hlookup⟩ := lookup_buildChildren_of_last hchildren hback
    rw [Declaration.build] at hnode
    obtain ⟨_, -, hnode⟩ := bind_eq_ok_iff.mp hnode
    obtain ⟨-, rfl⟩ := Prod.mk.inj (Except.ok.inj hnode)
    rw [walk?_directory_cons, show children.lookup name = _ from hlookup, Option.bind_some]
  · rintro front name inner back rfl hback
    obtain ⟨node, hnode, hlookup⟩ := lookup_buildChildren_of_last hchildren hback
    rw [Declaration.build] at hnode
    obtain ⟨_, -, hnode⟩ := bind_eq_ok_iff.mp hnode
    obtain ⟨built, hbuilt, hnode⟩ := bind_eq_ok_iff.mp hnode
    obtain ⟨-, rfl⟩ := Prod.mk.inj (Except.ok.inj hnode)
    refine ⟨built, hbuilt, ?_⟩
    intro rest
    rw [walk?_directory_cons, show children.lookup name = _ from hlookup, Option.bind_some]
  · intro name hname rest
    rw [walk?_directory_cons, lookup_buildChildren_of_forall hchildren hname]
    rfl

example : buildChildren "" [] [.directory "a" [.file "." "" .text], .file "a" "" .text] =
    .error (.invalidName "." "/a") := by rfl

end TreeShell.Document
