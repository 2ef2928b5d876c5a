import TreeShell.Proofs.BuiltTree
import TreeShell.Proofs.ChildOrder
import TreeShell.Proofs.FieldOrder
import TreeShell.Proofs.SpelledValue

/-!
# Trees that are written as documents

A tree can be written in many ways. Each node is a mapping or a sequence; a mapping has its entries
in any order, may leave out what goes without saying, and may hold further texts that mean nothing.
Every well-formed tree that is not nested too deeply can be written, and from whatever spelling is
chosen the same tree is read back, with its children in the order in which they were written.
-/

namespace TreeShell.Document

open Node

/-! ## Writing a tree -/

/-- A text as a value. -/
def Value.text (text : String) : Value := .scalar (.string text)

/-- The entry that gives a field a value. -/
def Field.entry (field : Field) (value : Value) : Value × Value := (.text field.key, value)

/-- An entry that means nothing: a text whose key is that of no field. -/
inductive IsExtra : Value × Value → Prop
  | text {key : String} (hkey : ∀ field : Field, key ≠ field.key) (text : String) :
      IsExtra (.text key, .text text)

/-- One entry, which may be left out under a condition. -/
inductive Optionally (condition : Prop) (entry : Value × Value) : List (Value × Value) → Prop
  | given : Optionally condition entry [entry]
  | absent (h : condition) : Optionally condition entry []

/-- The entries of a mapping, in any order, whose type and some others are given. Besides these
there may be an encoding that leaves content as it is, and entries that mean nothing. -/
inductive Gives (label : String) (needed : List (Value × Value)) : List (Value × Value) → Prop
  | perm {encodings extras entries : List (Value × Value)}
      (hencodings : Optionally True (Field.encoding.entry (.text "text")) encodings)
      (hextras : ∀ entry ∈ extras, IsExtra entry)
      (h : (Field.type.entry (.text label) :: (needed ++ (encodings ++ extras))).Perm entries) :
      Gives label needed entries

mutual

/-- The ways to write a node under a name. Only the outermost directory may do without one. -/
inductive Writes : Option String → Node → Value → Prop
  | fileMapping {name content : String} {contents entries : List (Value × Value)}
      (hcontents : Optionally (content = "") (Field.content.entry (.text content)) contents)
      (h : Gives "file" (Field.name.entry (.text name) :: contents) entries) :
      Writes (some name) (.file content) (.mapping entries)
  | fileSequence (name content : String) :
      Writes (some name) (.file content) (.sequence [.text "file", .text name, .text content])
  | directoryMapping {name : Option String} {children : List (String × Node)} {items : List Value}
      {lists entries : List (Value × Value)} (hchildren : WritesAll children items)
      (hlists : Optionally (children = []) (Field.children.entry (.sequence items)) lists)
      (h : Gives "directory"
        ((name.map fun name => Field.name.entry (.text name)).toList ++ lists) entries) :
      Writes name (.directory children) (.mapping entries)
  | directorySequence (name : String) {children : List (String × Node)} {items : List Value}
      (hchildren : WritesAll children items) :
      Writes (some name) (.directory children)
        (.sequence [.text "directory", .text name, .sequence items])

/-- The ways to write named nodes one after the other. -/
inductive WritesAll : List (String × Node) → List Value → Prop
  | nil : WritesAll [] []
  | cons {name : String} {node : Node} {children : List (String × Node)} {item : Value}
      {items : List Value} (h : Writes (some name) node item)
      (hchildren : WritesAll children items) :
      WritesAll ((name, node) :: children) (item :: items)

end

/-! ## What is declared -/

mutual

/-- The declaration of a node under a name. -/
def Declaration.ofNode (name : String) : Node → Declaration
  | .file content => .file name content .text
  | .directory children => .directory name (ofChildren children)

/-- The declarations of named nodes. -/
def ofChildren : List (String × Node) → List Declaration
  | [] => []
  | (name, node) :: children => .ofNode name node :: ofChildren children

end

theorem isTypeKey_entry {field : Field} (h : field ≠ .type) (value : Value) :
    isTypeKey (field.entry value).1 = false := by
  cases field with
  | type => exact absurd rfl h
  | name | children | content | encoding => rfl

theorem IsExtra.isTypeKey_eq {entry : Value × Value} (h : IsExtra entry) :
    isTypeKey entry.1 = false := by
  cases h with
  | text hkey text => exact decide_eq_false (hkey .type)

theorem IsExtra.fieldOfKey_eq {entry : Value × Value} (h : IsExtra entry) (fields : List Field) :
    fieldOfKey fields entry.1 = .ok none := by
  cases h with
  | @text key hkey text =>
    have hfind : fields.find? (fun field => field.key == key) = none := by
      refine List.find?_eq_none.mpr ?_
      intro field _
      simpa using Ne.symm (hkey field)
    exact congrArg Except.ok hfind

theorem Optionally.forall_mem {condition : Prop} {entry : Value × Value}
    {entries : List (Value × Value)} (h : Optionally condition entry entries)
    {p : Value × Value → Prop} (hentry : p entry) : ∀ other ∈ entries, p other := by
  cases h with
  | given => exact List.forall_mem_singleton.mpr hentry
  | absent => exact fun other hother => absurd hother List.not_mem_nil

section Declared

variable {needed encodings extras others entries : List (Value × Value)}

theorem isTypeKey_of_gives (hneeded : ∀ entry ∈ needed, isTypeKey entry.1 = false)
    (hencodings : Optionally True (Field.encoding.entry (.text "text")) encodings)
    (hextras : ∀ entry ∈ extras, IsExtra entry) :
    ∀ entry ∈ needed ++ (encodings ++ extras), isTypeKey entry.1 = false := by
  refine List.forall_mem_append.mpr ⟨hneeded, List.forall_mem_append.mpr ⟨?_, ?_⟩⟩
  · exact hencodings.forall_mem (isTypeKey_entry (by decide) _)
  · exact fun entry hentry => (hextras entry hentry).isTypeKey_eq

theorem isTypeKey_of_file {condition : Prop} (name : String) {content : String}
    {contents : List (Value × Value)}
    (hcontents : Optionally condition (Field.content.entry (.text content)) contents) :
    ∀ entry ∈ Field.name.entry (.text name) :: contents, isTypeKey entry.1 = false := by
  refine List.forall_mem_cons.mpr ⟨isTypeKey_entry (by decide) _, ?_⟩
  exact hcontents.forall_mem (isTypeKey_entry (by decide) _)

theorem isTypeKey_of_directory {condition : Prop} (name : Option String) {items : List Value}
    {lists : List (Value × Value)}
    (hlists : Optionally condition (Field.children.entry (.sequence items)) lists) :
    ∀ entry ∈ (name.map fun name => Field.name.entry (.text name)).toList ++ lists,
      isTypeKey entry.1 = false := by
  refine List.forall_mem_append.mpr ⟨?_, ?_⟩
  · cases name with
    | none => exact fun entry hentry => absurd hentry List.not_mem_nil
    | some name => exact List.forall_mem_singleton.mpr (isTypeKey_entry (by decide) _)
  · exact hlists.forall_mem (isTypeKey_entry (by decide) _)

theorem kindOfEntries_of_forall {kind : Kind} (h : ∀ entry ∈ entries, isTypeKey entry.1 = false) :
    kindOfEntries (some kind) entries = .ok kind := by
  induction entries with
  | nil => rfl
  | cons entry entries ih =>
    obtain ⟨hentry, hentries⟩ := List.forall_mem_cons.mp h
    exact kindOfEntries_cons_eq_ok_iff.mpr ⟨_, .passed hentry, ih hentries⟩

theorem kindOfEntries_cons_type {label : String} {kind : Kind}
    (hlabel : kindOfLabel label = .ok kind)
    (h : ∀ entry ∈ others, isTypeKey entry.1 = false) :
    kindOfEntries none (Field.type.entry (.text label) :: others) = .ok kind :=
  kindOfEntries_cons_eq_ok_iff.mpr ⟨_, .type rfl rfl hlabel, kindOfEntries_of_forall h⟩

theorem FileFields.takes_type (fields : FileFields) (value : Value) :
    fields.Takes (Field.type.entry value) fields := by
  have hkey : fieldOfKey [.name, .content, .encoding] (Field.type.entry value).1 = .ok none := rfl
  exact .passed hkey (by simp) (by simp) (by simp)

theorem DirectoryFields.takes_type (fields : DirectoryFields) (value : Value) :
    fields.Takes (Field.type.entry value) fields := by
  have hkey : fieldOfKey [.name, .children] (Field.type.entry value).1 = .ok none := rfl
  exact .passed hkey (by simp) (by simp)

/-- Behind the name and the content of a file nothing changes it. -/
theorem fileOfEntries_of_rest {fields : FileFields} {name : String}
    (hname : fields.name = some name) (hvacant : fields.encoding = none)
    (hencodings : Optionally True (Field.encoding.entry (.text "text")) encodings)
    (hextras : ∀ entry ∈ extras, IsExtra entry) :
    fileOfEntries fields (encodings ++ extras) =
      .ok (.file name (fields.content.getD "") .text) := by
  have hall : ∀ fields : FileFields, fields.name = some name → fields.encoding.getD .text = .text →
      fileOfEntries fields extras = .ok (.file name (fields.content.getD "") .text) := by
    intro fields hname hencoding
    induction extras with
    | nil => rw [fileOfEntries, FileFields.declaration, hname, hencoding]
    | cons entry extras ih =>
      obtain ⟨hentry, hextras⟩ := List.forall_mem_cons.mp hextras
      refine fileOfEntries_cons_eq_ok_iff.mpr ⟨fields, ?_, ih hextras⟩
      exact .passed (hentry.fieldOfKey_eq _) (by simp) (by simp) (by simp)
  cases hencodings with
  | given =>
    refine fileOfEntries_cons_eq_ok_iff.mpr ⟨_, .encoding rfl hvacant rfl, ?_⟩
    exact hall _ hname rfl
  | absent => exact hall fields hname (by rw [hvacant]; rfl)

/-- Behind the name and the children of a directory nothing changes it. -/
theorem directoryOfEntries_of_rest (fields : DirectoryFields)
    (hencodings : Optionally True (Field.encoding.entry (.text "text")) encodings)
    (hextras : ∀ entry ∈ extras, IsExtra entry) :
    directoryOfEntries fields (encodings ++ extras) = .ok fields.declaration := by
  have hpassed : ∀ entry ∈ encodings ++ extras,
      fieldOfKey [.name, .children] entry.1 = .ok none := by
    refine List.forall_mem_append.mpr ⟨hencodings.forall_mem rfl, ?_⟩
    exact fun entry hentry => (hextras entry hentry).fieldOfKey_eq _
  generalize encodings ++ extras = entries at hpassed
  induction entries with
  | nil => rw [directoryOfEntries]
  | cons entry entries ih =>
    obtain ⟨hentry, hentries⟩ := List.forall_mem_cons.mp hpassed
    refine directoryOfEntries_cons_eq_ok_iff.mpr ⟨fields, ?_, ih hentries⟩
    exact .passed hentry (by simp) (by simp)

theorem declaration_of_fileMapping {name content : String} {contents : List (Value × Value)}
    (hcontents : Optionally (content = "") (Field.content.entry (.text content)) contents)
    (h : Gives "file" (Field.name.entry (.text name) :: contents) entries) :
    (Value.mapping entries).declaration = .ok (.file name content .text) := by
  cases h with
  | @perm encodings extras _ hencodings hextras h =>
    refine declaration_mapping_of_perm h ?_
    have hothers := isTypeKey_of_gives (isTypeKey_of_file name hcontents) hencodings hextras
    rw [Value.declaration]
    refine bind_eq_ok_iff.mpr ⟨.file, kindOfEntries_cons_type rfl hothers, ?_⟩
    refine fileOfEntries_cons_eq_ok_iff.mpr ⟨_, FileFields.takes_type _ _, ?_⟩
    refine fileOfEntries_cons_eq_ok_iff.mpr ⟨_, .name rfl rfl rfl, ?_⟩
    cases hcontents with
    | given =>
      refine fileOfEntries_cons_eq_ok_iff.mpr ⟨_, .content rfl rfl rfl, ?_⟩
      show fileOfEntries _ (encodings ++ extras) = _
      exact fileOfEntries_of_rest rfl rfl hencodings hextras
    | absent hcontent =>
      rw [hcontent]
      show fileOfEntries _ (encodings ++ extras) = _
      exact fileOfEntries_of_rest rfl rfl hencodings hextras

theorem declaration_of_directoryMapping {name : Option String} {children : List Declaration}
    {items : List Value} {lists : List (Value × Value)}
    (hchildren : declarations items = .ok children)
    (hlists : Optionally (children = []) (Field.children.entry (.sequence items)) lists)
    (h : Gives "directory" ((name.map fun name => Field.name.entry (.text name)).toList ++ lists)
      entries) :
    (Value.mapping entries).declaration = .ok (.directory (name.getD "") children) := by
  cases h with
  | @perm encodings extras _ hencodings hextras h =>
    refine declaration_mapping_of_perm h ?_
    have hothers := isTypeKey_of_gives (isTypeKey_of_directory name hlists) hencodings hextras
    have hrest : ∀ fields : DirectoryFields, fields.children = none →
        directoryOfEntries fields (lists ++ (encodings ++ extras)) =
          .ok (.directory (fields.name.getD "") children) := by
      intro fields hvacant
      cases hlists with
      | given =>
        refine directoryOfEntries_cons_eq_ok_iff.mpr ⟨_, .children rfl hvacant hchildren, ?_⟩
        show directoryOfEntries _ (encodings ++ extras) = _
        exact directoryOfEntries_of_rest _ hencodings hextras
      | absent hnone =>
        rw [List.nil_append, directoryOfEntries_of_rest _ hencodings hextras, hnone,
          DirectoryFields.declaration, hvacant]
        rfl
    rw [Value.declaration]
    refine bind_eq_ok_iff.mpr ⟨.directory, kindOfEntries_cons_type rfl hothers, ?_⟩
    refine directoryOfEntries_cons_eq_ok_iff.mpr ⟨_, DirectoryFields.takes_type _ _, ?_⟩
    cases name with
    | none => exact hrest {} rfl
    | some name =>
      exact directoryOfEntries_cons_eq_ok_iff.mpr ⟨_, .name rfl rfl rfl, hrest _ rfl⟩

end Declared

mutual

/-- A node that is written is declared. -/
theorem declaration_of_writes {name : Option String} {node : Node} {value : Value}
    (h : Writes name node value) :
    value.declaration = .ok (.ofNode (name.getD "") node) := by
  cases h with
  | fileMapping hcontents h => exact declaration_of_fileMapping hcontents h
  | fileSequence name content => rfl
  | directoryMapping hchildren hlists h =>
    refine declaration_of_directoryMapping (declarations_of_writesAll hchildren) ?_ h
    cases hlists with
    | given => exact .given
    | absent hnone => exact .absent (by rw [hnone]; rfl)
  | directorySequence name hchildren =>
    have hitems : childrenOfValue (.sequence _) = _ := declarations_of_writesAll hchildren
    rw [Value.declaration]
    refine bind_eq_ok_iff.mpr ⟨.directory, rfl, ?_⟩
    dsimp only
    rw [directoryOfItems, hitems]
    rfl

theorem declarations_of_writesAll {children : List (String × Node)} {items : List Value}
    (h : WritesAll children items) : declarations items = .ok (ofChildren children) := by
  cases h with
  | nil => rw [declarations]; rfl
  | cons h hchildren =>
    rw [declarations, declaration_of_writes h, declarations_of_writesAll hchildren]
    rfl

end

/-! ## Every tree can be written -/

mutual

/-- The containers, one inside the other, that a node takes at least where it is written: a file and
an empty directory take one, and every other directory takes two around its children. -/
def nesting : Node → Nat
  | .file _ => 1
  | .directory [] => 1
  | .directory ((_, node) :: children) => max (nesting node) (nestingOfAll children) + 2

/-- The containers, one inside the other, that any of the nodes takes. -/
def nestingOfAll : List (String × Node) → Nat
  | [] => 0
  | (_, node) :: children => max (nesting node) (nestingOfAll children)

end

/-- Whether tokens have a spelling. -/
def Spellable (tokens : List Json.Token) : Prop := ∃ text, Json.SpellsTokens tokens text

section Spellable

variable {tokens : List Json.Token}

theorem Spellable.mark (h : Spellable tokens) (c : Char) : Spellable (.mark c :: tokens) := by
  obtain ⟨rest, h⟩ := h
  exact ⟨_, h.mark c⟩

theorem Spellable.text (h : Spellable tokens) (text : String) :
    Spellable (.scalar (.string text) :: tokens) := by
  obtain ⟨rest, h⟩ := h
  obtain ⟨written, hwritten⟩ := Json.exists_spellsText text.toList
  exact ⟨_, h.text hwritten⟩

theorem Spellable.tail {token : Json.Token} (h : Spellable (token :: tokens)) :
    Spellable tokens := by
  obtain ⟨text, h⟩ := h
  cases h with
  | cons _ _ h => exact ⟨_, h⟩

/-- What can be spelled behind an item can be spelled as a sequence of its own. -/
theorem Spellable.sequence {items : List Value}
    (h : Spellable (Json.tokensOfItems items ++ tokens)) :
    Spellable (Json.tokensOf (.sequence items) ++ tokens) := by
  cases items with
  | nil => exact h.mark '['
  | cons item items => exact h.tail.mark '['

end Spellable

theorem within_text (limit : Nat) (text : String) : Json.Within limit (.text text) := .scalar _

/-- A way to write a node that is within a limit, and spelled in front of whatever is spelled. -/
def CanWrite (limit : Nat) (name : String) (node : Node) : Prop :=
  ∃ value, Writes (some name) node value ∧ Json.Within limit value ∧
    ∀ tokens, Spellable tokens → Spellable (Json.tokensOf value ++ tokens)

theorem canWrite_file (limit : Nat) (name content : String) :
    CanWrite (limit + 1) name (.file content) := by
  refine ⟨_, .fileSequence name content, .sequence (by simp [within_text]), ?_⟩
  intro tokens htokens
  have hbehind := (((htokens.mark ']').text content).mark ',').text name
  exact ((hbehind.mark ',').text "file").mark '['

theorem canWrite_empty (limit : Nat) (name : String) :
    CanWrite (limit + 1) name (.directory []) := by
  have hgives : Gives "directory" [Field.name.entry (.text name)]
      [Field.type.entry (.text "directory"), Field.name.entry (.text name)] :=
    .perm (.absent trivial) (fun _ hentry => absurd hentry List.not_mem_nil) (List.Perm.refl _)
  have hwrites : Writes (some name) (.directory []) _ := .directoryMapping .nil (.absent rfl) hgives
  refine ⟨_, hwrites, .mapping ?_ ?_, ?_⟩
  · simp [Field.entry, Value.text]
  · simp [Field.entry, within_text]
  · intro tokens htokens
    have hname := (((htokens.mark '}').text name).mark ':').text "name"
    exact ((((hname.mark ',').text "directory").mark ':').text "type").mark '{'

mutual

/-- Every node can be written, as far as its nesting allows it. -/
theorem canWrite_of_nesting_le (name : String) (node : Node) {limit : Nat}
    (h : nesting node ≤ limit) : CanWrite limit name node := by
  cases node with
  | file content =>
    obtain ⟨limit, rfl⟩ := Nat.exists_eq_add_of_le' (show 1 ≤ limit by rwa [nesting] at h)
    exact canWrite_file limit name content
  | directory children =>
    cases children with
    | nil =>
      obtain ⟨limit, rfl⟩ := Nat.exists_eq_add_of_le' (show 1 ≤ limit by rwa [nesting] at h)
      exact canWrite_empty limit name
    | cons child children =>
      obtain ⟨childName, node⟩ := child
      rw [nesting] at h
      obtain ⟨limit, rfl⟩ := Nat.exists_eq_add_of_le' (show 2 ≤ limit by omega)
      have hlimit : nestingOfAll ((childName, node) :: children) ≤ limit := by
        rw [nestingOfAll]
        omega
      obtain ⟨items, hchildren, hitems, hspell⟩ := exists_writesAll _ hlimit
      have hsequence : Json.Within (limit + 1) (.sequence items) := .sequence hitems
      refine ⟨_, .directorySequence name hchildren, .sequence ?_, ?_⟩
      · simp [within_text, hsequence]
      · intro tokens htokens
        have hlist := (hspell _ (htokens.mark ']')).sequence
        have hall := ((((hlist.mark ',').text name).mark ',').text "directory").mark '['
        simpa [Json.tokensOf, Json.tokensOfItems, Value.text] using hall

theorem exists_writesAll (children : List (String × Node)) {limit : Nat}
    (h : nestingOfAll children ≤ limit) :
    ∃ items, WritesAll children items ∧ (∀ item ∈ items, Json.Within limit item) ∧
      ∀ tokens, Spellable tokens → Spellable (Json.tokensOfItems items ++ tokens) := by
  cases children with
  | nil =>
    refine ⟨[], .nil, fun _ hitem => absurd hitem List.not_mem_nil, ?_⟩
    exact fun tokens htokens => htokens.mark ']'
  | cons child children =>
    obtain ⟨name, node⟩ := child
    rw [nestingOfAll] at h
    have hnode : nesting node ≤ limit := by omega
    have hchildren : nestingOfAll children ≤ limit := by omega
    obtain ⟨item, hitem, hwithin, hfirst⟩ := canWrite_of_nesting_le name node hnode
    obtain ⟨items, hitems, hall, hothers⟩ := exists_writesAll children hchildren
    refine ⟨item :: items, .cons hitem hitems, List.forall_mem_cons.mpr ⟨hwithin, hall⟩, ?_⟩
    intro tokens htokens
    rw [Json.tokensOfItems, List.cons_append, List.append_assoc]
    exact (hfirst _ (hothers tokens htokens)).mark ','

end

theorem nesting_directory_le {children : List (String × Node)} {limit : Nat}
    (h : nestingOfAll children ≤ limit) : nesting (.directory children) ≤ limit + 1 + 1 := by
  cases children with
  | nil =>
    rw [nesting]
    omega
  | cons child children =>
    obtain ⟨name, node⟩ := child
    rw [nestingOfAll] at h
    rw [nesting]
    omega

mutual

/-- No way to write a node takes fewer containers. -/
theorem nesting_le_of_writes {name : Option String} {node : Node} {value : Value} {limit : Nat}
    (h : Writes name node value) (hvalue : Json.Within limit value) : nesting node ≤ limit := by
  cases h with
  | fileMapping =>
    cases hvalue with
    | mapping =>
      rw [nesting]
      omega
  | fileSequence =>
    cases hvalue with
    | sequence =>
      rw [nesting]
      omega
  | @directoryMapping _ children items lists entries hchildren hlists h =>
    cases hvalue with
    | @mapping limit _ _ hentries =>
      cases hlists with
      | given =>
        have hmem : Field.children.entry (.sequence items) ∈ entries := by
          cases h with
          | perm _ _ h => exact h.mem_iff.mp (by simp)
        have hitems : Json.Within limit (.sequence items) := hentries _ hmem
        cases hitems with
        | sequence hitems =>
          exact nesting_directory_le (nestingOfAll_le_of_writesAll hchildren hitems)
      | absent hnone =>
        rw [hnone, nesting]
        omega
  | @directorySequence _ children items hchildren =>
    cases hvalue with
    | @sequence limit _ hvalues =>
      have hitems : Json.Within limit (.sequence items) := hvalues _ (by simp)
      cases hitems with
      | sequence hitems =>
        exact nesting_directory_le (nestingOfAll_le_of_writesAll hchildren hitems)

theorem nestingOfAll_le_of_writesAll {children : List (String × Node)} {items : List Value}
    {limit : Nat} (h : WritesAll children items) (hitems : ∀ item ∈ items, Json.Within limit item) :
    nestingOfAll children ≤ limit := by
  cases h with
  | nil =>
    rw [nestingOfAll]
    omega
  | cons h hchildren =>
    obtain ⟨hitem, hothers⟩ := List.forall_mem_cons.mp hitems
    have hfirst := nesting_le_of_writes h hitem
    have hrest := nestingOfAll_le_of_writesAll hchildren hothers
    rw [nestingOfAll]
    omega

end

end TreeShell.Document
