import Mathlib.Tactic.Convert
import TreeShell.Proofs.WrittenTree

/-!
# Documents of written trees

The outermost node of a document is read in a way of its own: its entries are gone through while the
text is read, and its type is taken out on the way. Where the type is given by a label this comes to
the same as for every other node. So a text that spells a tree in any of the ways to write it is
read back as this tree.
-/

namespace TreeShell.Document

open Node

/-! ## The outermost node -/

section Outermost

variable {events rest afterKey afterValue : List Event} {key value item : Value}

theorem takeItems_of_take {read : List Value} (h : Value.take [] events = some (item, rest)) :
    takeItems read events = takeItems (item :: read) rest := by
  rw [takeItems.eq_def]
  split
  · exact absurd h (by simp [Value.take])
  · split
    · next h' =>
      rw [h] at h'
      obtain ⟨rfl, rfl⟩ := Prod.mk.inj (Option.some.inj h')
      rfl
    · next h' =>
      rw [h] at h'
      exact absurd h' (by simp)

theorem takeItems_eventsOfItems (items read : List Value) (rest : List Event) :
    takeItems read (eventsOfItems items ++ rest) = some (read.reverse ++ items, rest) := by
  induction items generalizing read with
  | nil =>
    rw [eventsOfItems, List.singleton_append, takeItems.eq_def, List.append_nil]
  | cons item items ih =>
    rw [eventsOfItems, List.append_assoc, takeItems_of_take (take_events item [] _), ih,
      List.reverse_cons, List.append_assoc, List.singleton_append]

theorem takeEntries_of_type {read : List (Value × Value)} {scalar : Option Scalar} {label : String}
    (hkey : Value.take [] events = some (key, .scalar scalar (some label) :: rest))
    (htype : isTypeKey key = true) :
    takeEntries none read events =
      (kindOfLabel label).bind fun kind => takeEntries (some kind) read rest := by
  rw [takeEntries.eq_def]
  split
  · exact absurd hkey (by simp [Value.take])
  · split
    · next h' =>
      rw [hkey] at h'
      exact absurd h' (by simp)
    · next h' =>
      rw [hkey] at h'
      obtain ⟨rfl, rfl⟩ := Prod.mk.inj (Option.some.inj h')
      rw [if_pos htype]
      rfl

theorem takeEntries_of_other {kind : Option Kind} {read : List (Value × Value)}
    (hkey : Value.take [] events = some (key, afterKey)) (hother : isTypeKey key = false)
    (hvalue : Value.take [] afterKey = some (value, afterValue)) :
    takeEntries kind read events = takeEntries kind ((key, value) :: read) afterValue := by
  rw [takeEntries.eq_def]
  split
  · exact absurd hkey (by simp [Value.take])
  · split
    · next h' =>
      rw [hkey] at h'
      exact absurd h' (by simp)
    · next h' =>
      rw [hkey] at h'
      obtain ⟨rfl, rfl⟩ := Prod.mk.inj (Option.some.inj h')
      rw [if_neg (by rw [hother]; simp)]
      split
      · next h'' =>
        rw [hvalue] at h''
        exact absurd h'' (by simp)
      · next h'' =>
        rw [hvalue] at h''
        obtain ⟨rfl, rfl⟩ := Prod.mk.inj (Option.some.inj h'')
        rfl

/-- Reading the entries up to the end of the mapping takes the type out of them. -/
theorem takeEntries_eventsOfEntries {entries read : List (Value × Value)} {seen : Option Kind}
    {kind : Kind}
    (hlabels : ∀ entry ∈ entries, isTypeKey entry.1 = true → ∃ label, entry.2 = .text label)
    (h : kindOfEntries seen entries = .ok kind) :
    takeEntries seen read (eventsOfEntries entries ++ rest) =
      .ok (kind, read.reverse ++ entries.filter (fun entry => !isTypeKey entry.1), rest) := by
  induction entries generalizing seen read with
  | nil =>
    rw [eventsOfEntries, List.singleton_append, takeEntries.eq_def]
    cases seen with
    | none => exact absurd h (by simp [kindOfEntries])
    | some declared =>
      obtain rfl : declared = kind := Except.ok.inj h
      rw [List.filter_nil, List.append_nil]
  | cons entry entries ih =>
    obtain ⟨key, value⟩ := entry
    obtain ⟨hlabel, hothers⟩ := List.forall_mem_cons.mp hlabels
    obtain ⟨next, htakes, hrest⟩ := kindOfEntries_cons_eq_ok_iff.mp h
    rw [eventsOfEntries, List.append_assoc, List.append_assoc]
    have hkey := take_events key [] (value.events ++ (eventsOfEntries entries ++ rest))
    cases htakes with
    | @type declared htype hvacant hvalue =>
      obtain ⟨label, rfl⟩ := hlabel htype
      have hdeclared : kindOfLabel label = .ok declared := hvalue
      rw [hvacant, takeEntries_of_type hkey htype, hdeclared, List.filter_cons_of_neg (by simpa)]
      exact ih hothers hrest
    | passed hother =>
      have hvalue := take_events value [] (eventsOfEntries entries ++ rest)
      rw [takeEntries_of_other hkey hother hvalue, ih hothers hrest, List.reverse_cons,
        List.append_assoc, List.singleton_append, List.filter_cons_of_pos (by simpa)]

end Outermost

/-! ## Entries without the type -/

section Filtered

variable {key : Value} {entries : List (Value × Value)} {declaration : Declaration}

theorem fieldOfKey_of_isTypeKey (h : isTypeKey key = true) {fields : List Field}
    (hfields : .type ∉ fields) : fieldOfKey fields key = .ok none := by
  unfold isTypeKey at h
  split at h
  · next name =>
    have hfind : fields.find? (fun field => field.key == name) = none := by
      refine List.find?_eq_none.mpr ?_
      rw [of_decide_eq_true h]
      intro field hfield
      cases field with
      | type => exact absurd hfield hfields
      | name | children | content | encoding => decide
    exact congrArg Except.ok hfind
  · exact absurd h (by simp)

theorem fileOfEntries_filter (fields : FileFields) (entries : List (Value × Value)) :
    fileOfEntries fields (entries.filter fun entry => !isTypeKey entry.1) =
      fileOfEntries fields entries := by
  induction entries generalizing fields with
  | nil => rfl
  | cons entry entries ih =>
    obtain ⟨key, value⟩ := entry
    by_cases htype : isTypeKey key = true
    · rw [List.filter_cons_of_neg (by simpa), ih, fileOfEntries,
        fieldOfKey_of_isTypeKey htype (by decide)]
      rfl
    · rw [List.filter_cons_of_pos (by simpa using htype), fileOfEntries, fileOfEntries]
      simp only [ih]

theorem directoryOfEntries_filter (fields : DirectoryFields) (entries : List (Value × Value)) :
    directoryOfEntries fields (entries.filter fun entry => !isTypeKey entry.1) =
      directoryOfEntries fields entries := by
  induction entries generalizing fields with
  | nil => rfl
  | cons entry entries ih =>
    obtain ⟨key, value⟩ := entry
    by_cases htype : isTypeKey key = true
    · rw [List.filter_cons_of_neg (by simpa), ih, directoryOfEntries,
        fieldOfKey_of_isTypeKey htype (by decide)]
      rfl
    · rw [List.filter_cons_of_pos (by simpa using htype), directoryOfEntries, directoryOfEntries]
      simp only [ih]

end Filtered

/-- A value that gives a type, as a node has to, by a label. -/
inductive Labelled : Value → Prop
  | sequence (label : String) (items : List Value) : Labelled (.sequence (.text label :: items))
  | mapping {entries : List (Value × Value)}
      (h : ∀ entry ∈ entries, isTypeKey entry.1 = true → ∃ label, entry.2 = .text label) :
      Labelled (.mapping entries)

/-- The outermost node declares what it would declare inside another one. -/
theorem takeDeclaration_events {value : Value} {declaration : Declaration} (hvalue : Labelled value)
    (h : value.declaration = .ok declaration) (rest : List Event) :
    takeDeclaration (value.events ++ rest) = .ok (declaration, rest) := by
  cases hvalue with
  | sequence label items =>
    rw [Value.declaration] at h
    obtain ⟨kind, hkind, h⟩ := bind_eq_ok_iff.mp h
    have hlabel : kindOfLabel label = .ok kind := hkind
    show takeDeclaration (.openSequence :: .scalar (some (.string label)) (some label) ::
      (eventsOfItems items ++ rest)) = _
    rw [takeDeclaration]
    refine bind_eq_ok_iff.mpr ⟨kind, hlabel, ?_⟩
    rw [takeItems_eventsOfItems]
    cases kind with
    | file => exact bind_eq_ok_iff.mpr ⟨declaration, h, rfl⟩
    | directory => exact bind_eq_ok_iff.mpr ⟨declaration, h, rfl⟩
  | @mapping entries hlabels =>
    rw [Value.declaration] at h
    obtain ⟨kind, hkind, h⟩ := bind_eq_ok_iff.mp h
    rw [Value.events, List.cons_append, takeDeclaration]
    refine bind_eq_ok_iff.mpr ⟨_, takeEntries_eventsOfEntries hlabels hkind, ?_⟩
    cases kind with
    | file =>
      refine bind_eq_ok_iff.mpr ⟨declaration, ?_, rfl⟩
      rw [List.reverse_nil, List.nil_append, fileOfEntries_filter]
      exact h
    | directory =>
      refine bind_eq_ok_iff.mpr ⟨declaration, ?_, rfl⟩
      rw [List.reverse_nil, List.nil_append, directoryOfEntries_filter]
      exact h

/-! ## Written values -/

theorem Gives.labelled {label : String} {needed entries : List (Value × Value)}
    (h : Gives label needed entries) (hneeded : ∀ entry ∈ needed, isTypeKey entry.1 = false) :
    Labelled (.mapping entries) := by
  cases h with
  | perm hencodings hextras h =>
    have hothers := isTypeKey_of_gives hneeded hencodings hextras
    refine .mapping ?_
    intro entry hentry htype
    rcases List.mem_cons.mp (h.mem_iff.mpr hentry) with rfl | hother
    · exact ⟨label, rfl⟩
    · rw [hothers entry hother] at htype
      exact absurd htype (by simp)

theorem labelled_of_writes {name : Option String} {node : Node} {value : Value}
    (h : Writes name node value) : Labelled value := by
  cases h with
  | fileMapping hcontents h => exact h.labelled (isTypeKey_of_file _ hcontents)
  | fileSequence name content => exact .sequence _ _
  | directoryMapping _ hlists h => exact h.labelled (isTypeKey_of_directory _ hlists)
  | directorySequence name _ => exact .sequence _ _

/-! ## Building a written tree -/

mutual

theorem build_ofNode (path : String) {name : String} {node : Node} (hname : Path.IsName name)
    (hnode : node.Named Path.IsName) :
    (Declaration.ofNode name node).build path = .ok (name, node) := by
  cases node with
  | file content =>
    rw [Declaration.ofNode, Declaration.build]
    exact bind_eq_ok_iff.mpr ⟨(), checkName_eq_ok_iff.mpr hname, rfl⟩
  | directory children =>
    have hchildren := buildChildren_ofChildren (path ++ "/" ++ name) [] children hnode
    rw [Declaration.ofNode, Declaration.build]
    refine bind_eq_ok_iff.mpr ⟨(), checkName_eq_ok_iff.mpr hname, ?_⟩
    exact bind_eq_ok_iff.mpr ⟨children, hchildren, rfl⟩

/-- Children with distinct names are built one behind the other. -/
theorem buildChildren_ofChildren (path : String) (built children : List (String × Node))
    (h : Named Path.IsName (.directory (built ++ children))) :
    buildChildren path built (ofChildren children) = .ok (built ++ children) := by
  cases children with
  | nil => rw [ofChildren, buildChildren, List.append_nil]
  | cons child children =>
    obtain ⟨name, node⟩ := child
    have hall := h
    cases h with
    | directory distinct names nodes =>
      have hmem : (name, node) ∈ built ++ (name, node) :: children := by simp
      have hvacant : built.lookup name = none := by
        refine FileSystem.lookup_eq_none_iff_not_mem.mpr ?_
        rw [List.map_append, List.map_cons] at distinct
        exact fun hname => (List.nodup_append.mp distinct).2.2 name hname name (by simp) rfl
      rw [ofChildren, buildChildren]
      refine bind_eq_ok_iff.mpr ⟨_, build_ofNode path (names _ hmem) (nodes _ hmem), ?_⟩
      rw [List.append_cons] at hall ⊢
      show buildChildren path (store name node built) (ofChildren children) = _
      rw [store_of_lookup_eq_none hvacant]
      exact buildChildren_ofChildren path _ children hall

end

/-- A well-formed tree is read back from every spelling of every way to write it. -/
theorem parse_of_spells {name : Option String} {root : Node} {value : Value} {text : List Char}
    (hroot : root.WellFormed) (hwrites : Writes name root value)
    (hvalue : Json.Within Json.depthLimit value) (hspells : Json.Spells value text) :
    parse .json (String.ofList text) = .ok root := by
  have hdeclared := takeDeclaration_events (labelled_of_writes hwrites)
    (declaration_of_writes hwrites) []
  rw [List.append_nil] at hdeclared
  have hread := Json.read_eq_events hvalue hspells
  have hdeclaration : (Format.json.read (String.ofList text)).declaration =
      .ok (.ofNode (name.getD "") root) := by
    rw [Format.read, hread, Reading.declaration]
    exact bind_eq_ok_iff.mpr ⟨_, hdeclared, rfl⟩
  refine bind_eq_ok_iff.mpr ⟨_, hdeclaration, ?_⟩
  have hkind := hroot.isDirectory
  cases root with
  | file content => exact absurd hkind (by simp [isDirectory])
  | directory children =>
    rw [Declaration.ofNode, Declaration.tree]
    exact bind_eq_ok_iff.mpr ⟨children, buildChildren_ofChildren "" [] children hroot.named, rfl⟩

/-- A tree can be written and spelled within a limit on the nesting just if its own nesting allows
it. In whatever way a well-formed tree is written, with the children of each directory in any order,
and in whatever way that is spelled within the nesting that is read, the tree is read back with its
children in the order in which they were written, whatever name the outermost directory is given. -/
theorem every_spelling_is_read_back {root : Node} (hroot : root.WellFormed) :
    (∀ name limit, (∃ (value : Value) (text : String), Writes (some name) root value ∧
      Json.Within limit value ∧ Json.Spells value text.toList) ↔ nesting root ≤ limit) ∧
    ∀ twin, root.Reordered twin → ∀ (name : Option String) (value : Value) (text : String),
      Writes name twin value → Json.Within Json.depthLimit value → Json.Spells value text.toList →
        parse .json text = .ok twin := by
  refine ⟨?_, ?_⟩
  · intro name limit
    constructor
    · rintro ⟨value, text, hwrites, hvalue, -⟩
      exact nesting_le_of_writes hwrites hvalue
    · intro hlimit
      obtain ⟨value, hwrites, hvalue, hspellable⟩ := canWrite_of_nesting_le name root hlimit
      obtain ⟨text, htext⟩ := hspellable [] ⟨[], .nil Json.isGap_nil⟩
      rw [List.append_nil] at htext
      refine ⟨value, String.ofList text, hwrites, hvalue, ?_⟩
      rwa [String.toList_ofList]
  · intro twin htwin name value text hwrites hvalue hspells
    have hparse := parse_of_spells (htwin.wellFormed hroot) hwrites hvalue hspells
    rwa [String.ofList_toList] at hparse

/-- The type of the outermost directory stands last, its name is left out, and its child is a
sequence whose content is written with an escape. -/
theorem mixed_spelling_is_read_back :
    let root := Node.directory [("a", .file "A")]
    let text :=
      "\x7b\"children\": [[\"file\", \"a\", \"\\u0041\"]], \"x\": \"\", \"type\": \"directory\"\x7d"
    root.WellFormed ∧ root.Reordered root ∧ parse .json text = .ok root := by
  intro root text
  have hname : Path.IsName "a" := by
    rw [← isNodeName_iff]
    rfl
  have hnamed : root.Named Path.IsName := by
    refine .directory (by decide) ?_ ?_
    · exact List.forall_mem_singleton.mpr hname
    · exact List.forall_mem_singleton.mpr (.file "A")
  have hroot : root.WellFormed := ⟨rfl, hnamed⟩
  have hsame : root.Reordered root := hnamed.reordered_refl
  let items : List Value := [.sequence [.text "file", .text "a", .text "A"]]
  let children := Field.children.entry (.sequence items)
  let extra : Value × Value := (.text "x", .text "")
  let type := Field.type.entry (.text "directory")
  have hextra : IsExtra extra := .text (by rintro ⟨⟩ <;> decide) ""
  have hwrites : Writes none root (.mapping [children, extra, type]) := by
    refine .directoryMapping (.cons (.fileSequence "a" "A") .nil) .given ?_
    refine .perm (.absent trivial) (List.forall_mem_singleton.mpr hextra) ?_
    show ([type] ++ [children, extra]).Perm ([children, extra] ++ [type])
    exact List.perm_append_comm
  have hvalue : Json.Within 127 (.mapping [children, extra, type]) := by
    have hitem : Json.Within 125 (.sequence [.text "file", .text "a", .text "A"]) :=
      .sequence (by simp [within_text])
    have hitems : Json.Within 126 (.sequence items) :=
      .sequence (List.forall_mem_singleton.mpr hitem)
    refine .mapping ?_ ?_
    · simp [children, extra, type, Field.entry, Value.text]
    · simp [children, extra, type, Field.entry, within_text, hitems]
  have hspells : Json.Spells (.mapping [children, extra, type]) text.toList := by
    have hplain : ∀ text : String,
        text.toList.all (fun c => c ≠ '"' && c ≠ '\\' && 0x20 ≤ c.toNat) = true →
          Json.SpellsText text.toList text.toList := fun _ h => Json.spellsText_self h
    have hescape : Json.SpellsText "A".toList "\\u0041".toList := by
      have hzero : Json.SpellsDigit 0 '0' := Or.inl rfl
      have hfour : Json.SpellsDigit 4 '4' := Or.inl rfl
      have hone : Json.SpellsDigit 1 '1' := Or.inl rfl
      have hunit : Json.SpellsUnit 'A'.toNat ['0', '0', '4', '1'] := .digits hzero hzero hfour hone
      exact .cons (.unit hunit) .nil
    have hend : Json.SpellsTokens [] [] := .nil Json.isGap_nil
    have htype := ((((hend.mark '}').text (hplain "directory" (by decide))).space.mark ':').text
      (hplain "type" (by decide))).space.mark ','
    have hextra := (((htype.text (hplain "" (by decide))).space.mark ':').text
      (hplain "x" (by decide))).space.mark ','
    have hitem := (((((((hextra.mark ']').mark ']').text hescape).space.mark ',').text
      (hplain "a" (by decide))).space.mark ',').text (hplain "file" (by decide))).mark '['
    have hall := (((hitem.mark '[').space.mark ':').text (hplain "children" (by decide))).mark '{'
    show Json.SpellsTokens (Json.tokensOf _) _
    convert hall using 1
    · rfl
    · decide
  exact ⟨hroot, hsame, (every_spelling_is_read_back hroot).2 root hsame none _ text hwrites hvalue
    hspells⟩

end TreeShell.Document
