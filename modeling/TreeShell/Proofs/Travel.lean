import TreeShell.Proofs.Observation

/-!
# Travelling along a path

A path can be taken in two ways. Normalizing it steps back over names in the text and never looks at
a tree. Travelling along it goes from directory to directory, with every name into a child that must
be there, and with `..` back to the directory it came from. Where the journey ends, the normalized
path leads: the names that normalizing has kept are the names taken from the root. A normalized path
may lead further than the journey, but only by stepping back over a name that is not there.
-/

namespace TreeShell

/-- Where a journey has come to: a directory, given by its children, and the directories passed on
the way from the root, the last one first, each with the name that was taken from it. -/
structure Position where
  /-- The children of the directory. -/
  children : List (String × Node)
  /-- The names taken, each with the children of the directory it was taken from. -/
  passed : List (String × List (String × Node))

namespace Position

/-- The names taken from the root, the last one first. -/
def place (position : Position) : List String := position.passed.map Prod.fst

/-- The absolute path of the directory. -/
def path (position : Position) : String := Path.render position.place.reverse

/-- The parent directory, which for the root is the root itself. -/
def leave (position : Position) : Position :=
  match position.passed with
  | [] => position
  | (_, parent) :: passed => { children := parent, passed }

/-- The child directory of the given name. -/
def enter? (position : Position) (name : String) : Option Position :=
  match position.children.lookup name with
  | some (.directory children) =>
    some { children, passed := (name, position.children) :: position.passed }
  | _ => none

/-- Where one part of a path leads. -/
def move? (position : Position) (part : String) : Option Position :=
  if part = "" ∨ part = "." then some position
  else if part = ".." then some position.leave
  else position.enter? part

end Position

/-- The journey from the root along the parts of a path. -/
def FileSystem.travel? (fs : FileSystem) (path : String) : Option Position :=
  fs.root.children?.bind fun children =>
    (Path.parts path).foldlM Position.move? { children, passed := [] }

theorem Node.exists_directory_of_walk? {node : Node} {names : List String}
    {children : List (String × Node)} (h : node.walk? names = some (.directory children)) :
    ∃ others, node = .directory others := by
  cases node with
  | directory others => exact ⟨others, rfl⟩
  | file content => cases names <;> simp [Node.walk?] at h

namespace Position

/-! ## Positions in a tree -/

/-- The position is one in the tree: each directory that was passed holds the next one. -/
inductive IsIn (root : Node) : Position → Prop
  | start {children : List (String × Node)} (h : root = .directory children) :
      IsIn root { children, passed := [] }
  | inside {parent children : List (String × Node)} {name : String}
      {passed : List (String × List (String × Node))} (h : IsIn root { children := parent, passed })
      (hlookup : parent.lookup name = some (.directory children)) :
      IsIn root { children, passed := (name, parent) :: passed }

variable {root : Node} {position next : Position}

theorem IsIn.walk?_eq (h : IsIn root position) :
    root.walk? position.place.reverse = some (.directory position.children) := by
  induction h with
  | start h => rw [h, place, List.map_nil, List.reverse_nil, Node.walk?_nil]
  | @inside parent children name passed _ hlookup ih =>
    have hplace : place { children, passed := (name, parent) :: passed } =
        name :: place { children := parent, passed } := rfl
    rw [hplace, List.reverse_cons, Node.walk?_append, ih, Option.bind_some, Node.walk?_cons,
      Node.children?, Option.bind_some, hlookup, Option.bind_some, Node.walk?_nil]

theorem place_leave (position : Position) : position.leave.place = position.place.tail := by
  obtain ⟨children, passed⟩ := position
  cases passed <;> rfl

theorem IsIn.leave (h : IsIn root position) : IsIn root position.leave := by
  cases h with
  | start h => exact .start h
  | inside h _ => exact h

theorem enter?_eq_some_iff {name : String} :
    position.enter? name = some next ↔
      ∃ children, position.children.lookup name = some (.directory children) ∧
        next = { children, passed := (name, position.children) :: position.passed } := by
  unfold enter?
  split
  · next children hlookup =>
    rw [hlookup]
    constructor
    · intro h
      exact ⟨children, rfl, (Option.some.inj h).symm⟩
    · rintro ⟨others, hothers, rfl⟩
      obtain rfl : children = others := Node.directory.inj (Option.some.inj hothers)
      rfl
  · next hother =>
    constructor
    · intro h
      exact absurd h (by simp)
    · rintro ⟨children, hlookup, -⟩
      exact absurd hlookup (hother children)

/-- A part that leads on in the tree leads on in the text, to the same place. -/
theorem IsIn.move {part : String} (h : IsIn root position)
    (hmove : position.move? part = some next) :
    IsIn root next ∧ next.place = Path.step position.place part := by
  unfold move? at hmove
  unfold Path.step
  split_ifs at hmove ⊢ with hstay hup
  · obtain rfl : position = next := Option.some.inj hmove
    exact ⟨h, rfl⟩
  · obtain rfl : position.leave = next := Option.some.inj hmove
    exact ⟨h.leave, position.place_leave⟩
  · obtain ⟨children, hlookup, rfl⟩ := enter?_eq_some_iff.mp hmove
    exact ⟨.inside h hlookup, rfl⟩

/-- A journey that succeeds ends where following the parts in the text ends. -/
theorem IsIn.moves {parts : List String} (h : IsIn root position)
    (hmoves : parts.foldlM move? position = some next) :
    IsIn root next ∧ next.place = parts.foldl Path.step position.place := by
  induction parts generalizing position with
  | nil =>
    obtain rfl : position = next := Option.some.inj hmoves
    exact ⟨h, rfl⟩
  | cons part parts ih =>
    rw [List.foldlM_cons] at hmoves
    obtain ⟨between, hmove, hmoves⟩ := Option.bind_eq_some_iff.mp hmoves
    obtain ⟨hbetween, hplace⟩ := h.move hmove
    obtain ⟨hnext, hend⟩ := ih hbetween hmoves
    exact ⟨hnext, by rw [hend, hplace, List.foldl_cons]⟩

/-! ## Paths without a step back -/

/-- Whether a part of a path leads away from where one is. -/
def leads (part : String) : Bool := part ≠ "" ∧ part ≠ "."

theorem leads_iff {part : String} : leads part = true ↔ part ≠ "" ∧ part ≠ "." := by
  rw [leads, decide_eq_true_iff]

theorem foldl_step_of_not_mem {parts : List String} (h : ".." ∉ parts) (place : List String) :
    parts.foldl Path.step place = (parts.filter leads).reverse ++ place := by
  induction parts generalizing place with
  | nil => rfl
  | cons part parts ih =>
    rw [List.mem_cons, not_or] at h
    rw [List.foldl_cons, ih h.2, Path.step]
    split_ifs with hstay hup
    · have hleads : ¬leads part = true := by
        rwa [leads_iff, ← not_or, not_not]
      rw [List.filter_cons_of_neg hleads]
    · exact absurd hup.symm h.1
    · have hleads : leads part = true := by
        rwa [leads_iff, ← not_or]
      rw [List.filter_cons_of_pos hleads, List.reverse_cons, List.append_assoc,
        List.singleton_append]

/-- Where no part steps back, the journey comes to every directory that the names lead to. -/
theorem exists_moves {parts : List String} (h : ".." ∉ parts) (position : Position)
    {children : List (String × Node)} (hwalk : (Node.directory position.children).walk?
      (parts.filter leads) = some (.directory children)) :
    ∃ last, parts.foldlM move? position = some last := by
  induction parts generalizing position with
  | nil => exact ⟨position, rfl⟩
  | cons part parts ih =>
    rw [List.mem_cons, not_or] at h
    by_cases hleads : leads part = true
    · -- the name leads to a child, and the names behind it lead on from there
      rw [List.filter_cons_of_pos hleads, Node.walk?_cons, Node.children?, Option.bind_some,
        Option.bind_eq_some_iff] at hwalk
      obtain ⟨child, hlookup, hwalk⟩ := hwalk
      obtain ⟨others, rfl⟩ := Node.exists_directory_of_walk? hwalk
      let inner : Position :=
        { children := others, passed := (part, position.children) :: position.passed }
      have hmove : position.move? part = some inner := by
        have hstay : ¬(part = "" ∨ part = ".") := by
          rwa [leads_iff, ← not_or] at hleads
        rw [move?, if_neg hstay, if_neg (Ne.symm h.1), enter?_eq_some_iff]
        exact ⟨others, hlookup, rfl⟩
      obtain ⟨last, hlast⟩ := ih h.2 inner hwalk
      refine ⟨last, ?_⟩
      rw [List.foldlM_cons, hmove]
      exact hlast
    · have hstay : part = "" ∨ part = "." := by
        rwa [leads_iff, ← not_or, not_not] at hleads
      rw [List.filter_cons_of_neg hleads] at hwalk
      obtain ⟨last, hlast⟩ := ih h.2 position hwalk
      refine ⟨last, ?_⟩
      rw [List.foldlM_cons, move?, if_pos hstay]
      exact hlast

end Position

/-- If the journey along a path succeeds, the normalized path is the path of the directory where it
ends, and leads there. If no part of the path steps back, the normalized path leads to a directory
only where the journey does. -/
theorem FileSystem.travel_agrees_with_normalize (fs : FileSystem) (path : String) :
    (∀ position, fs.travel? path = some position →
      fs.resolveDirectory (Path.normalize path) = .ok position.children ∧
        Path.normalize path = position.path) ∧
    (".." ∉ Path.parts path → (fs.resolveDirectory (Path.normalize path)).isOk = true →
      (fs.travel? path).isSome = true) := by
  constructor
  · intro position htravel
    obtain ⟨children, hchildren, hmoves⟩ := Option.bind_eq_some_iff.mp htravel
    have hstart := Position.IsIn.start (Node.children?_eq_some_iff.mp hchildren)
    obtain ⟨hposition, hplace⟩ := hstart.moves hmoves
    have hfollow : Path.follow (Path.parts path) = position.place.reverse :=
      congrArg List.reverse hplace.symm
    constructor
    · rw [resolveDirectory_eq_ok_iff, Path.segments_normalize, hfollow]
      exact hposition.walk?_eq
    · rw [Path.normalize, hfollow, Position.path]
  · intro hparts hok
    obtain ⟨children, hresolve⟩ := isOk_iff.mp hok
    rw [resolveDirectory_eq_ok_iff, Path.segments_normalize, Path.follow,
      Position.foldl_step_of_not_mem hparts, List.append_nil, List.reverse_reverse] at hresolve
    obtain ⟨others, hroot⟩ := Node.exists_directory_of_walk? hresolve
    rw [hroot] at hresolve
    obtain ⟨last, hlast⟩ :=
      Position.exists_moves hparts { children := others, passed := [] } hresolve
    rw [travel?, hroot, Node.children?, Option.bind_some, hlast]
    rfl

/-- A step back above the root stays there, also where a child of the root is called `..`. -/
theorem FileSystem.journey_above_root_agrees_with_normalize :
    let inner : List (String × Node) := [("b", .directory []), ("f", .file "x")]
    let fs : FileSystem := { root := .directory [("..", .directory []), ("a", .directory inner)] }
    let path := "/a/./b//../../../a"
    let straight := "a//./b"
    (∃ position, fs.travel? path = some position ∧ position.children = inner ∧
      fs.resolveDirectory (Path.normalize path) = .ok inner ∧
      Path.normalize path = position.path) ∧
    ".." ∉ Path.parts straight ∧ (fs.resolveDirectory (Path.normalize straight)).isOk = true ∧
      (fs.travel? straight).isSome = true := by
  intro inner fs path straight
  obtain ⟨hjourney, -⟩ := fs.travel_agrees_with_normalize path
  obtain ⟨-, hstraight⟩ := fs.travel_agrees_with_normalize straight
  have hparts : ".." ∉ Path.parts straight := by decide
  have hok : (fs.resolveDirectory (Path.normalize straight)).isOk = true := by decide
  let outer : List (String × Node) := [("..", .directory []), ("a", .directory inner)]
  have htravel : fs.travel? path = some { children := inner, passed := [("a", outer)] } := by
    have hpath : Path.parts path = ["", "a", ".", "b", "", "..", "..", "..", "a"] := by decide
    rw [FileSystem.travel?, hpath]
    rfl
  obtain ⟨hresolve, hpath⟩ := hjourney _ htravel
  exact ⟨⟨_, htravel, rfl, hresolve, hpath⟩, hparts, hok, hstraight hparts hok⟩

/-- A name that is not there is no way, though normalizing steps back over it. -/
example : FileSystem.empty.travel? "/a/.." = none ∧ Path.normalize "/a/.." = "/" := by
  decide

end TreeShell
