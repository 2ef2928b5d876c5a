import Mathlib.Data.List.Sort
import TreeShell.Command.Listing
import TreeShell.Proofs.Listing

/-!
# The blocks of several operands

With several operands `ls` prints one block for each operand that exists. Between the blocks stands
an empty line wherever a directory follows on something printed. Before the first block none should
stand; but the lines are set by the place of an operand in the call, and an operand that is missing
has a place and no block. If the call begins with operands that are missing and a directory is what
exists first, the output begins with an empty line. That is the only exception.
-/

namespace TreeShell

namespace Entry

variable {entries : List Entry} {entry : Entry} {kind : Kind} {name : String}

/-- The names of the entries of one kind. -/
def namesOf (kind : Kind) (entries : List Entry) : List String :=
  (entries.filter fun entry => entry.kind = kind).map Entry.name

theorem mem_namesOf_iff : name ∈ namesOf kind entries ↔ ⟨kind, name⟩ ∈ entries := by
  simp only [namesOf, List.mem_map, List.mem_filter, decide_eq_true_eq]
  constructor
  · rintro ⟨entry, ⟨hentry, rfl⟩, rfl⟩
    exact hentry
  · intro h
    exact ⟨⟨kind, name⟩, ⟨h, rfl⟩, rfl⟩

theorem Precedes.name_lt {other : Entry} (h : entry.Precedes other)
    (hkind : entry.kind = other.kind) : entry.name < other.name := by
  rcases h with ⟨hfile, hdirectory⟩ | ⟨-, hname⟩
  · rw [hfile, hdirectory] at hkind
    exact absurd hkind (by decide)
  · exact hname

theorem pairwise_namesOf (h : entries.Pairwise Precedes) (kind : Kind) :
    (namesOf kind entries).Pairwise (· < ·) := by
  rw [namesOf, List.pairwise_map]
  refine (h.filter _).imp_of_mem ?_
  intro entry other hentry hother hprecedes
  have hkind : entry.kind = kind := of_decide_eq_true (List.mem_filter.mp hentry).2
  have hkind' : other.kind = kind := of_decide_eq_true (List.mem_filter.mp hother).2
  exact hprecedes.name_lt (hkind.trans hkind'.symm)

theorem namesOf_cons_self (name : String) (entries : List Entry) :
    namesOf kind (⟨kind, name⟩ :: entries) = name :: namesOf kind entries := by
  rw [namesOf, List.filter_cons_of_pos (by simp), List.map_cons, namesOf]

theorem namesOf_cons_of_ne (h : entry.kind ≠ kind) :
    namesOf kind (entry :: entries) = namesOf kind entries := by
  rw [namesOf, List.filter_cons_of_neg (by simpa using h), namesOf]

/-- Behind a directory no file is listed. -/
theorem namesOf_file_eq_nil (h : (entry :: entries).Pairwise Precedes)
    (hentry : entry.kind = .directory) : namesOf .file entries = [] := by
  rw [List.eq_nil_iff_forall_not_mem]
  intro name hname
  have hbehind := List.rel_of_pairwise_cons h (mem_namesOf_iff.mp hname)
  rcases hbehind with ⟨hfile, -⟩ | ⟨hfile, -⟩
  · exact Kind.noConfusion (hentry.symm.trans hfile)
  · exact Kind.noConfusion (hentry.symm.trans hfile)

end Entry

namespace Command

open Entry FileSystem

/-! ## What operands name -/

/-- What is found at an operand. For a directory these are the names of its files and those of its
directories. -/
inductive Found where
  | nothing
  | file
  | directory (files directories : List String)
  deriving DecidableEq

/-- What is found behind the given names. -/
inductive Finds (fs : FileSystem) (names : List String) : Found → Prop where
  | nothing (h : fs.view names = none) : Finds fs names .nothing
  | file {content : String} (h : fs.view names = some (.file content)) : Finds fs names .file
  /-- The names of each kind are in order, and no others are found than those that lead on. -/
  | directory {files directories : List String} (h : fs.view names = some .directory)
      (files_ordered : files.Pairwise (· < ·)) (directories_ordered : directories.Pairwise (· < ·))
      (mem_files : ∀ name, name ∈ files ↔
        ∃ content, fs.view (names ++ [name]) = some (.file content))
      (mem_directories : ∀ name, name ∈ directories ↔
        fs.view (names ++ [name]) = some .directory) :
      Finds fs names (.directory files directories)

/-- Nothing else is found there. -/
theorem Finds.unique {fs : FileSystem} {names : List String} {found other : Found}
    (h : Finds fs names found) (hother : Finds fs names other) : found = other := by
  cases h with
  | nothing h =>
    cases hother with
    | nothing => rfl
    | file h' | directory h' => exact absurd (h.symm.trans h') nofun
  | file h =>
    cases hother with
    | file => rfl
    | nothing h' | directory h' => exact absurd (h.symm.trans h') nofun
  | directory h hfiles hdirectories mem_files mem_directories =>
    cases hother with
    | nothing h' | file h' => exact absurd (h.symm.trans h') nofun
    | directory h' hfiles' hdirectories' mem_files' mem_directories' =>
      have hsame := hfiles.eq_of_mem_iff hfiles' fun name =>
        (mem_files name).trans (mem_files' name).symm
      have hsame' := hdirectories.eq_of_mem_iff hdirectories' fun name =>
        (mem_directories name).trans (mem_directories' name).symm
      rw [hsame, hsame']

/-- Operands determine what is found at them. -/
theorem items_unique {fs : FileSystem} (path : String → List String)
    {items others : List (String × Found)} (h : items.map Prod.fst = others.map Prod.fst)
    (hitems : ∀ item ∈ items, Finds fs (path item.1) item.2)
    (hothers : ∀ item ∈ others, Finds fs (path item.1) item.2) : items = others := by
  induction items generalizing others with
  | nil => exact (List.map_eq_nil_iff.mp h.symm).symm
  | cons item items ih =>
    cases others with
    | nil => exact absurd h (List.cons_ne_nil _ _)
    | cons other others =>
      obtain ⟨hname, hnames⟩ := List.cons.inj h
      obtain ⟨hitem, hitems⟩ := List.forall_mem_cons.mp hitems
      obtain ⟨hother, hothers⟩ := List.forall_mem_cons.mp hothers
      rw [← hname] at hother
      rw [ih hnames hitems hothers, Prod.ext hname (hitem.unique hother)]

/-- Names one below the other, each with the same ending. -/
def column (ending : String) (names : List String) : String :=
  String.join (names.map fun name => name ++ ending)

theorem column_nil (ending : String) : column ending [] = "" := rfl

theorem column_cons (ending name : String) (names : List String) :
    column ending (name :: names) = name ++ ending ++ column ending names := by
  rw [column, List.map_cons, String.join_cons, column]

/-- The blocks of the operands that exist, in their order. An empty line stands before the block of
a directory if there is a block before it. -/
def layout (earlier : Bool) : List (String × Found) → String
  | [] => ""
  | (_, .nothing) :: items => layout earlier items
  | (operand, .file) :: items => operand ++ "\n" ++ layout true items
  | (operand, .directory files directories) :: items =>
    (if earlier then "\n" else "") ++ operand ++ ":\n" ++
      column "\n" files ++ column "/\n" directories ++ layout true items

/-- What is said of an operand that does not exist. -/
def accessComplaint (operand : String) : String :=
  "ls: cannot access '" ++ operand ++ "': No such file or directory\n"

/-- The complaints about the operands that do not exist, in their order. -/
def accessComplaints (items : List (String × Found)) : String :=
  String.join ((items.filter fun item => item.2 = .nothing).map fun item => accessComplaint item.1)

/-- The status: 2 if some operand does not exist. -/
def trouble (items : List (String × Found)) : Int :=
  if Found.nothing ∈ items.map Prod.snd then 2 else 0

/-- Whatever is missing at first, a directory is what exists first. -/
inductive DirectoryFirst : List (String × Found) → Prop where
  | here (operand : String) (files directories : List String) (items : List (String × Found)) :
      DirectoryFirst ((operand, .directory files directories) :: items)
  | later (operand : String) {items : List (String × Found)} (h : DirectoryFirst items) :
      DirectoryFirst ((operand, .nothing) :: items)

/-- The first operand is missing, and a directory is what exists first. -/
def OpensLate (items : List (String × Found)) : Prop :=
  (items.map Prod.snd).head? = some .nothing ∧ DirectoryFirst items

variable {session : Session} {fs : FileSystem} {allowed : String → Prop}
  {items : List (String × Found)} {operands : List String}

theorem layout_true_of_directoryFirst (h : DirectoryFirst items) :
    layout true items = "\n" ++ layout false items := by
  induction h with
  | here operand files directories items =>
    simp only [layout, if_true, Bool.false_eq_true, if_false, String.append_assoc,
      String.empty_append]
  | later operand h ih => exact ih

theorem layout_true_of_not_directoryFirst (h : ¬ DirectoryFirst items) :
    layout true items = layout false items := by
  induction items with
  | nil => rfl
  | cons item items ih =>
    obtain ⟨operand, found⟩ := item
    cases found with
    | nothing => exact ih fun hlater => h (.later operand hlater)
    | file => rfl
    | directory files directories => exact absurd (.here operand files directories items) h

/-! ## One operand -/

/-- What is printed for one operand. -/
def Found.outcome (heading operand : String) : Found → Outcome
  | .nothing => { stderr := accessComplaint operand, status := 2 }
  | .file => { stdout := operand ++ "\n" }
  | .directory files directories =>
    { stdout := heading ++ (column "\n" files ++ column "/\n" directories) }

/-- The lines of a listing, with the files and the directories told apart. -/
theorem join_map_entryLine {entries : List Entry} (h : entries.Pairwise Precedes) :
    String.join (entries.map entryLine) =
      column "\n" (namesOf .file entries) ++ column "/\n" (namesOf .directory entries) := by
  induction entries with
  | nil => rfl
  | cons entry entries ih =>
    have hrest := ih h.of_cons
    obtain ⟨kind, name⟩ := entry
    rw [List.map_cons, String.join_cons, hrest]
    cases kind with
    | file =>
      rw [namesOf_cons_self, namesOf_cons_of_ne Kind.noConfusion, column_cons, String.append_assoc]
      rfl
    | directory =>
      rw [namesOf_cons_self, namesOf_cons_of_ne Kind.noConfusion, namesOf_file_eq_nil h rfl,
        column_cons, column_nil, String.empty_append, String.empty_append]
      rfl

/-- A listing is what is found at a directory. -/
theorem finds_listing (hnamed : fs.root.Named allowed) {names : List String}
    {children : List (String × Node)} (hwalk : fs.root.walk? names = some (.directory children)) :
    Finds fs names
      (.directory (namesOf .file (Node.listing children))
        (namesOf .directory (Node.listing children))) := by
  have hlisting : Node.IsListing children (Node.listing children) :=
    (hnamed.walk? hwalk).isListing
  have hlookup (name : String) : fs.view (names ++ [name]) =
      (children.lookup name).map Node.surface := by
    rw [view, Node.view, ← children?_bind_lookup, children?_eq_some_iff.mpr hwalk,
      Option.bind_some]
  refine .directory (Node.view_eq_directory_iff.mpr ⟨children, hwalk⟩)
    (pairwise_namesOf hlisting.ordered .file) (pairwise_namesOf hlisting.ordered .directory) ?_ ?_
  · intro name
    rw [mem_namesOf_iff, hlisting.mem_iff, hlookup]
    rcases children.lookup name with _ | ⟨content⟩ | ⟨inner⟩ <;> simp [Node.kind, Node.surface]
  · intro name
    rw [mem_namesOf_iff, hlisting.mem_iff, hlookup]
    rcases children.lookup name with _ | ⟨content⟩ | ⟨inner⟩ <;> simp [Node.kind, Node.surface]

theorem finds_empty_subdirectory (hnamed : fs.root.Named allowed) {names : List String}
    {name : String} (hwalk : fs.root.walk? names = some (.directory [(name, .directory [])])) :
    Finds fs names (.directory [] [name]) := by
  have hlisting : Node.listing [(name, .directory [])] = [⟨.directory, name⟩] :=
    List.mergeSort_singleton _
  have hfinds := finds_listing hnamed hwalk
  rw [hlisting, namesOf_cons_self, namesOf_cons_of_ne Kind.noConfusion] at hfinds
  exact hfinds

theorem exists_list_eq_error {path : String} {shown : Option Surface}
    (h : fs.view (Path.segments path) = shown) (hshown : shown ≠ some .directory) :
    ∃ failure, fs.list path = .error failure := by
  cases hresolve : fs.resolveDirectory path "scandir" with
  | ok children =>
    have hwalk := resolveDirectory_eq_ok_iff.mp hresolve
    exact absurd (h.symm.trans (Node.view_eq_directory_iff.mpr ⟨children, hwalk⟩)) hshown
  | error failure =>
    rw [list, hresolve]
    exact ⟨failure, rfl⟩

/-- What is printed for an operand tells what is found there. -/
theorem exists_finds (session : Session) (hnamed : fs.root.Named allowed) (operand : String) :
    ∃ found, Finds fs (Path.segments (session.resolve operand)) found ∧
      ∀ heading, listOperand session fs heading operand = found.outcome heading operand := by
  cases hwalk : fs.root.walk? (Path.segments (session.resolve operand)) with
  | none =>
    have hview := view_eq_none_iff.mpr hwalk
    obtain ⟨failure, hlist⟩ := exists_list_eq_error hview nofun
    have hread := read_eq fs (session.resolve operand)
    rw [hview] at hread
    refine ⟨.nothing, .nothing hview, fun heading => ?_⟩
    simp only [listOperand, hlist, hread]
    rfl
  | some node =>
    cases node with
    | file content =>
      have hview := Node.view_eq_file_iff.mpr hwalk
      obtain ⟨failure, hlist⟩ := exists_list_eq_error hview nofun
      have hread := read_eq_ok_iff.mpr hview
      refine ⟨.file, .file hview, fun heading => ?_⟩
      simp only [listOperand, hlist, hread, Found.outcome]
    | directory children =>
      refine ⟨_, finds_listing hnamed hwalk, fun heading => ?_⟩
      simp only [listOperand, list_of_walk? hwalk, Found.outcome,
        join_map_entryLine (hnamed.walk? hwalk).isListing.ordered]

theorem exists_items (session : Session) (hnamed : fs.root.Named allowed)
    (operands : List String) :
    ∃ items : List (String × Found), items.map Prod.fst = operands ∧
      ∀ item ∈ items, Finds fs (Path.segments (session.resolve item.1)) item.2 ∧
        ∀ heading, listOperand session fs heading item.1 = item.2.outcome heading item.1 := by
  induction operands with
  | nil => exact ⟨[], rfl, fun _ h => absurd h List.not_mem_nil⟩
  | cons operand operands ih =>
    obtain ⟨items, hitems, hall⟩ := ih
    obtain ⟨found, hfound⟩ := exists_finds session hnamed operand
    exact ⟨(operand, found) :: items, by rw [List.map_cons, hitems],
      List.forall_mem_cons.mpr ⟨hfound, hall⟩⟩

/-! ## All operands -/

/-- The line that names a directory, with an empty line before it or without one. -/
def headingOf (earlier : Bool) (operand : String) : String :=
  (if earlier then "\n" else "") ++ operand ++ ":\n"

/-- What is printed for all operands, under a given output. -/
def report (stdout : String) (items : List (String × Found)) : Outcome where
  stdout
  stderr := accessComplaints items
  status := trouble items

theorem accessComplaints_cons_nothing (operand : String) (items : List (String × Found)) :
    accessComplaints ((operand, .nothing) :: items) =
      accessComplaint operand ++ accessComplaints items := by
  rw [accessComplaints, List.filter_cons_of_pos (by simp), List.map_cons, String.join_cons,
    accessComplaints]

theorem accessComplaints_cons_of_ne {operand : String} {found : Found} (h : found ≠ .nothing) :
    accessComplaints ((operand, found) :: items) = accessComplaints items := by
  rw [accessComplaints, List.filter_cons_of_neg (by simpa using h), accessComplaints]

theorem trouble_nonneg (items : List (String × Found)) : 0 ≤ trouble items := by
  rw [trouble]
  split_ifs <;> decide

theorem trouble_le (items : List (String × Found)) : trouble items ≤ 2 := by
  rw [trouble]
  split_ifs <;> decide

theorem trouble_cons_nothing (operand : String) (items : List (String × Found)) :
    trouble ((operand, .nothing) :: items) = 2 :=
  if_pos List.mem_cons_self

theorem trouble_cons_of_ne {operand : String} {found : Found} (h : found ≠ .nothing) :
    trouble ((operand, found) :: items) = trouble items := by
  have hmem : Found.nothing ∈ ((operand, found) :: items).map Prod.snd ↔
      Found.nothing ∈ items.map Prod.snd := by
    rw [List.map_cons, List.mem_cons, or_iff_right h.symm]
  exact if_congr hmem rfl rfl

/-- A block alone is no cause for complaints. -/
theorem block_andThen_report {operand : String} {found : Found} (h : found ≠ .nothing)
    (block text : String) :
    ({ stdout := block } : Outcome).andThen (report text items) =
      report (block ++ text) ((operand, found) :: items) := by
  have hstatus : max 0 (trouble items) = trouble items := Int.max_eq_right (trouble_nonneg items)
  simp only [Outcome.andThen, report, accessComplaints_cons_of_ne h, trouble_cons_of_ne h, hstatus,
    String.empty_append]

/-- One operand more in front: if it is missing, the rest is printed as behind a block. -/
theorem outcome_andThen_report (earlier : Bool) (operand : String) (found : Found)
    (items : List (String × Found)) :
    (found.outcome (headingOf earlier operand) operand).andThen (report (layout true items) items) =
      report (layout (earlier || found = .nothing) ((operand, found) :: items))
        ((operand, found) :: items) := by
  cases found with
  | nothing =>
    have hstatus : max 2 (trouble items) = 2 := Int.max_eq_left (trouble_le items)
    simp only [Outcome.andThen, Found.outcome, report, accessComplaints_cons_nothing,
      trouble_cons_nothing, hstatus, layout, decide_true, Bool.or_true, String.empty_append]
  | file => exact block_andThen_report Found.noConfusion _ _
  | directory files directories =>
    have hlayout : layout (earlier || decide (Found.directory files directories = .nothing))
          ((operand, .directory files directories) :: items) =
        headingOf earlier operand ++ (column "\n" files ++ column "/\n" directories) ++
          layout true items := by
      simp only [layout, headingOf, String.append_assoc, reduceCtorEq, decide_false, Bool.or_false]
    rw [hlayout]
    exact block_andThen_report Found.noConfusion _ _

theorem sequence_outcomes (items : List (String × Found)) :
    Outcome.sequence (items.map fun item => item.2.outcome (headingOf true item.1) item.1) =
      report (layout true items) items := by
  induction items with
  | nil => rfl
  | cons item items ih =>
    obtain ⟨operand, found⟩ := item
    have hstep := outcome_andThen_report true operand found items
    rw [← ih] at hstep
    exact hstep

/-- The first of several operands alone has no empty line before its block. -/
theorem ls_eq_report (hfs : session.fileSystem = some fs) {operand : String} {found : Found}
    (hlength : 2 ≤ ((operand, found) :: items).length)
    (hall : ∀ item ∈ (operand, found) :: items, ∀ heading,
      listOperand session fs heading item.1 = item.2.outcome heading item.1) :
    ls session (((operand, found) :: items).map Prod.fst) =
      report (layout (found = .nothing) ((operand, found) :: items))
        ((operand, found) :: items) := by
  obtain ⟨hfirst, hothers⟩ := List.forall_mem_cons.mp hall
  -- behind the first operand every heading has an empty line before it
  have hrest : (items.map Prod.fst).map (fun operand =>
      listOperand session fs ("\n" ++ operand ++ ":\n") operand) =
        items.map fun item => item.2.outcome (headingOf true item.1) item.1 := by
    rw [List.map_map]
    exact List.map_congr_left fun item hitem => hothers item hitem _
  cases items with
  | nil => exact absurd hlength (by simp)
  | cons second others =>
    have hls : ls session (((operand, found) :: second :: others).map Prod.fst) =
        (listOperand session fs (operand ++ ":\n") operand).andThen
          (Outcome.sequence (((second :: others).map Prod.fst).map fun operand =>
            listOperand session fs ("\n" ++ operand ++ ":\n") operand)) := by
      rw [ls, hfs]
      rfl
    have hheading : operand ++ ":\n" = headingOf false operand := by
      rw [headingOf, if_neg Bool.false_ne_true, String.empty_append]
    rw [hls, hrest, sequence_outcomes, hfirst, hheading, outcome_andThen_report, Bool.false_or]

/-- With at least two operands `ls` prints one block for each operand that exists and one complaint
for each that does not, both in the order of the operands, and the status tells whether anything is
missing. An empty line stands before the block of a directory just when there is a block before it;
but if the first operand is missing and a directory is what exists first, there is an empty line
before this first block too. -/
theorem ls_prints_blocks_in_order (hfs : session.fileSystem = some fs)
    (hnamed : fs.root.Named allowed) (hlength : 2 ≤ operands.length) :
    ∃ items : List (String × Found), items.map Prod.fst = operands ∧
      (∀ item ∈ items, Finds fs (Path.segments (session.resolve item.1)) item.2) ∧
      (OpensLate items → (ls session operands).stdout = "\n" ++ layout false items) ∧
      (¬ OpensLate items → (ls session operands).stdout = layout false items) ∧
      (ls session operands).stderr = accessComplaints items ∧
      (ls session operands).status = if Found.nothing ∈ items.map Prod.snd then 2 else 0 := by
  obtain ⟨items, rfl, hitems⟩ := exists_items session hnamed operands
  rw [List.length_map] at hlength
  obtain ⟨⟨operand, found⟩, others, rfl⟩ :=
    List.exists_cons_of_length_pos (Nat.lt_of_succ_lt hlength)
  have hls := ls_eq_report hfs hlength fun item hitem => (hitems item hitem).2
  refine ⟨(operand, found) :: others, rfl, fun item hitem => (hitems item hitem).1, ?_, ?_, ?_, ?_⟩
  · rintro ⟨hfirst, hdirectory⟩
    obtain rfl := Option.some.inj hfirst
    rw [hls, ← layout_true_of_directoryFirst hdirectory]
    rfl
  · intro hearly
    rw [hls]
    by_cases hfound : found = .nothing
    · subst hfound
      exact layout_true_of_not_directoryFirst fun hdirectory => hearly ⟨rfl, hdirectory⟩
    · rw [decide_eq_false hfound]
      rfl
  · rw [hls]
    rfl
  · rw [hls]
    rfl

/-- A file, something missing and a directory. -/
theorem ls_separates_file_and_directory :
    let children : List (String × Node) :=
      [("a", .directory [("b", .directory [])]), ("f", .file "x")]
    let fs : FileSystem := { root := .directory children }
    let session : Session :=
      { config := { username := "", hostname := "", cwd := "/", home := "/" }
        fileSystem := some fs }
    session.fileSystem = some fs ∧ fs.root.Named (fun _ => True) ∧ 2 ≤ ["f", "nope", "/a"].length ∧
      (ls session ["f", "nope", "/a"]).stdout = "f\n\n/a:\nb/\n" ∧
      (ls session ["f", "nope", "/a"]).stderr =
        "ls: cannot access 'nope': No such file or directory\n" ∧
      (ls session ["f", "nope", "/a"]).status = 2 := by
  intro children fs session
  have hfs : session.fileSystem = some fs := rfl
  have hinner : (Node.directory [("b", .directory [])]).Named fun _ => True :=
    .directory (by decide) (fun _ _ => trivial) (List.forall_mem_singleton.mpr .empty)
  have hnamed : fs.root.Named fun _ => True :=
    .directory (by decide) (fun _ _ => trivial)
      (List.forall_mem_cons.mpr ⟨hinner, List.forall_mem_singleton.mpr (.file "x")⟩)
  have hlength : 2 ≤ ["f", "nope", "/a"].length := by decide
  obtain ⟨items, hitems, hfinds, -, hstdout, hstderr, hstatus⟩ :=
    ls_prints_blocks_in_order hfs hnamed hlength
  have hf : Path.segments (Path.resolve "/" "f") = ["f"] := by decide
  have hnope : Path.segments (Path.resolve "/" "nope") = ["nope"] := by decide
  have ha : Path.segments (Path.resolve "/" "/a") = ["a"] := by decide
  have hfile : Finds fs (Path.segments (Path.resolve "/" "f")) .file := by
    rw [hf]
    exact .file rfl
  have hmissing : Finds fs (Path.segments (Path.resolve "/" "nope")) .nothing := by
    rw [hnope]
    exact .nothing rfl
  have hwalk : fs.root.walk? (Path.segments (Path.resolve "/" "/a")) =
      some (.directory [("b", .directory [])]) := by
    rw [ha]
    rfl
  have hdirectory := finds_empty_subdirectory hnamed hwalk
  have hall : ∀ item ∈ [("f", Found.file), ("nope", .nothing), ("/a", .directory [] ["b"])],
      Finds fs (Path.segments (session.resolve item.1)) item.2 :=
    List.forall_mem_cons.mpr
      ⟨hfile, List.forall_mem_cons.mpr ⟨hmissing, List.forall_mem_singleton.mpr hdirectory⟩⟩
  obtain rfl := items_unique (fun operand => Path.segments (session.resolve operand)) hitems hfinds
    hall
  have hblocks := hstdout fun h => Found.noConfusion (Option.some.inj h.1)
  refine ⟨hfs, hnamed, hlength, hblocks.trans ?_, hstderr.trans ?_, hstatus.trans ?_⟩
  · rfl
  · rfl
  · rfl

/-- What is missing prints nothing, and an empty line stands before the first block all the same. -/
theorem ls_prints_empty_line_first :
    let fs : FileSystem := { root := .directory [("a", .directory [("b", .directory [])])] }
    let session : Session :=
      { config := { username := "", hostname := "", cwd := "/", home := "/" }
        fileSystem := some fs }
    let items : List (String × Found) := [("nope", .nothing), ("/a", .directory [] ["b"])]
    (∀ item ∈ items, Finds fs (Path.segments (session.resolve item.1)) item.2) ∧
      (ls session ["nope", "/a"]).stdout = "\n/a:\nb/\n" ∧
      layout false items = "/a:\nb/\n" := by
  intro fs session items
  have hnamed : fs.root.Named fun _ => True :=
    .directory (by decide) (fun _ _ => trivial)
      (List.forall_mem_singleton.mpr (.directory (by decide) (fun _ _ => trivial)
        (List.forall_mem_singleton.mpr .empty)))
  have hnope : Path.segments (Path.resolve "/" "nope") = ["nope"] := by decide
  have ha : Path.segments (Path.resolve "/" "/a") = ["a"] := by decide
  have hmissing : fs.view (Path.segments (Path.resolve "/" "nope")) = none := by
    rw [hnope]
    rfl
  have hwalk : fs.root.walk? (Path.segments (Path.resolve "/" "/a")) =
      some (.directory [("b", .directory [])]) := by
    rw [ha]
    rfl
  have hdirectory := finds_empty_subdirectory hnamed hwalk
  refine ⟨List.forall_mem_cons.mpr
    ⟨.nothing hmissing, List.forall_mem_singleton.mpr hdirectory⟩, ?_, ?_⟩
  · decide +kernel
  · decide +kernel

end Command

end TreeShell
