import Mathlib.Data.List.Perm.Basic
import TreeShell.Proofs.LoadedTree

/-!
# The order of fields

The entries of a mapping are gone through one after the other, and each of them gives one field of a
node or is passed over. A field can be given only once. Two entries that are both accepted therefore
give different fields, so that it does not matter which comes first: a node that is accepted is
accepted as the same node with its entries in any order.
-/

namespace TreeShell.Document

/-- If two steps in a row can always be made the other way round, a run of steps that comes to an
end comes to the same end with its steps in any order. -/
theorem eq_ok_of_perm {ε α β σ : Type} {run : σ → List α → Except ε β} {takes : σ → α → σ → Prop}
    (hrun : ∀ {state : σ} {entry : α} {entries : List α} {result : β},
      run state (entry :: entries) = .ok result ↔
        ∃ next, takes state entry next ∧ run next entries = .ok result)
    (hswap : ∀ {state next last : σ} {first second : α}, takes state first next →
      takes next second last → ∃ other, takes state second other ∧ takes other first last)
    {entries others : List α} (h : entries.Perm others) {state : σ} {result : β}
    (hresult : run state entries = .ok result) : run state others = .ok result := by
  induction h generalizing state with
  | nil => exact hresult
  | cons entry _ ih =>
    obtain ⟨next, hnext, hrest⟩ := hrun.mp hresult
    exact hrun.mpr ⟨next, hnext, ih hrest⟩
  | swap second first entries =>
    obtain ⟨next, hnext, hrest⟩ := hrun.mp hresult
    obtain ⟨last, hlast, hrest⟩ := hrun.mp hrest
    obtain ⟨other, hother, hback⟩ := hswap hnext hlast
    exact hrun.mpr ⟨other, hother, hrun.mpr ⟨last, hback, hrest⟩⟩
  | trans _ _ ih ih' => exact ih' (ih hresult)

variable {entries others : List (Value × Value)} {declaration : Declaration}

/-! ## Types -/

/-- What an entry makes of the kind that was declared so far, if it is accepted. -/
inductive TakesKind (seen : Option Kind) (entry : Value × Value) : Option Kind → Prop
  | type {kind : Kind} (hkey : isTypeKey entry.1 = true) (hvacant : seen = none)
      (hvalue : kindOfValue entry.2 = .ok kind) : TakesKind seen entry (some kind)
  | passed (hkey : isTypeKey entry.1 = false) : TakesKind seen entry seen

theorem kindOfEntries_cons_eq_ok_iff {seen : Option Kind} {entry : Value × Value} {kind : Kind} :
    kindOfEntries seen (entry :: entries) = .ok kind ↔
      ∃ next, TakesKind seen entry next ∧ kindOfEntries next entries = .ok kind := by
  obtain ⟨key, value⟩ := entry
  rw [kindOfEntries.eq_def]
  dsimp only
  by_cases hkey : isTypeKey key = true
  · rw [if_pos hkey]
    constructor
    · intro h
      split at h
      · exact absurd h (by simp)
      · obtain ⟨declared, hvalue, h⟩ := bind_eq_ok_iff.mp h
        exact ⟨_, .type hkey rfl hvalue, h⟩
    · rintro ⟨next, htakes, h⟩
      cases htakes with
      | type _ hvacant hvalue =>
        subst hvacant
        exact bind_eq_ok_iff.mpr ⟨_, hvalue, h⟩
      | passed hother =>
        rw [show isTypeKey key = false from hother] at hkey
        exact absurd hkey (by simp)
  · rw [if_neg hkey]
    rw [Bool.not_eq_true] at hkey
    constructor
    · exact fun h => ⟨seen, .passed hkey, h⟩
    · rintro ⟨next, htakes, h⟩
      cases htakes with
      | type hother =>
        rw [show isTypeKey key = true from hother] at hkey
        exact absurd hkey (by simp)
      | passed => exact h

theorem TakesKind.swap {seen next last : Option Kind} {first second : Value × Value}
    (hfirst : TakesKind seen first next) (hsecond : TakesKind next second last) :
    ∃ other, TakesKind seen second other ∧ TakesKind other first last := by
  cases hfirst with
  | type hkey hvacant hvalue =>
    cases hsecond with
    | type _ htaken _ => exact absurd htaken (by simp)
    | passed hother => exact ⟨_, .passed hother, .type hkey hvacant hvalue⟩
  | passed hkey =>
    cases hsecond with
    | type hother hvacant hvalue => exact ⟨_, .type hother hvacant hvalue, .passed hkey⟩
    | passed hother => exact ⟨_, .passed hother, .passed hkey⟩

/-- The type of a node may stand anywhere among its entries. -/
theorem kindOfEntries_eq_ok_of_perm (h : entries.Perm others) {kind : Kind}
    (hkind : kindOfEntries none entries = .ok kind) : kindOfEntries none others = .ok kind :=
  eq_ok_of_perm kindOfEntries_cons_eq_ok_iff TakesKind.swap h hkind

/-! ## Files -/

/-- What an entry makes of the fields of a file, if it is accepted. -/
inductive FileFields.Takes (fields : FileFields) (entry : Value × Value) : FileFields → Prop
  | name {name : String} (hkey : fieldOfKey [.name, .content, .encoding] entry.1 = .ok (some .name))
      (hvacant : fields.name = none) (hvalue : nameOfValue entry.2 = .ok name) :
      Takes fields entry { fields with name := some name }
  | content {content : String}
      (hkey : fieldOfKey [.name, .content, .encoding] entry.1 = .ok (some .content))
      (hvacant : fields.content = none) (hvalue : contentOfValue entry.2 = .ok content) :
      Takes fields entry { fields with content := some content }
  | encoding {encoding : Encoding}
      (hkey : fieldOfKey [.name, .content, .encoding] entry.1 = .ok (some .encoding))
      (hvacant : fields.encoding = none) (hvalue : encodingOfValue entry.2 = .ok encoding) :
      Takes fields entry { fields with encoding := some encoding }
  | passed {field : Option Field}
      (hkey : fieldOfKey [.name, .content, .encoding] entry.1 = .ok field)
      (hname : field ≠ some .name) (hcontent : field ≠ some .content)
      (hencoding : field ≠ some .encoding) : Takes fields entry fields

theorem fileOfEntries_cons_eq_ok_iff {fields : FileFields} {entry : Value × Value} :
    fileOfEntries fields (entry :: entries) = .ok declaration ↔
      ∃ next, fields.Takes entry next ∧ fileOfEntries next entries = .ok declaration := by
  obtain ⟨key, value⟩ := entry
  rw [fileOfEntries]
  constructor
  · intro h
    obtain ⟨field, hkey, h⟩ := bind_eq_ok_iff.mp h
    split at h
    · split_ifs at h with hgiven
      obtain ⟨name, hvalue, h⟩ := bind_eq_ok_iff.mp h
      exact ⟨_, .name hkey (by simpa using hgiven) hvalue, h⟩
    · split_ifs at h with hgiven
      obtain ⟨content, hvalue, h⟩ := bind_eq_ok_iff.mp h
      exact ⟨_, .content hkey (by simpa using hgiven) hvalue, h⟩
    · split_ifs at h with hgiven
      obtain ⟨encoding, hvalue, h⟩ := bind_eq_ok_iff.mp h
      exact ⟨_, .encoding hkey (by simpa using hgiven) hvalue, h⟩
    · next hname hcontent hencoding =>
      exact ⟨fields, .passed hkey hname hcontent hencoding, h⟩
  · rintro ⟨next, htakes, h⟩
    cases htakes with
    | name hkey hvacant hvalue | content hkey hvacant hvalue | encoding hkey hvacant hvalue =>
      refine bind_eq_ok_iff.mpr ⟨_, hkey, ?_⟩
      simp only [hvacant, Option.isSome_none, Bool.false_eq_true, if_false]
      exact bind_eq_ok_iff.mpr ⟨_, hvalue, h⟩
    | @passed field hkey hname hcontent hencoding =>
      refine bind_eq_ok_iff.mpr ⟨_, hkey, ?_⟩
      split
      · exact absurd rfl hname
      · exact absurd rfl hcontent
      · exact absurd rfl hencoding
      · exact h

theorem FileFields.Takes.swap {fields next last : FileFields} {first second : Value × Value}
    (hfirst : fields.Takes first next) (hsecond : next.Takes second last) :
    ∃ other, fields.Takes second other ∧ other.Takes first last := by
  -- a field that the first entry gave is not vacant any more
  cases hfirst with
  | name hkey hvacant hvalue =>
    cases hsecond with
    | name _ htaken _ => exact absurd htaken (by simp)
    | content hkey' hvacant' hvalue' =>
      exact ⟨_, .content hkey' hvacant' hvalue', .name hkey hvacant hvalue⟩
    | encoding hkey' hvacant' hvalue' =>
      exact ⟨_, .encoding hkey' hvacant' hvalue', .name hkey hvacant hvalue⟩
    | passed hkey' h h' h'' => exact ⟨_, .passed hkey' h h' h'', .name hkey hvacant hvalue⟩
  | content hkey hvacant hvalue =>
    cases hsecond with
    | name hkey' hvacant' hvalue' =>
      exact ⟨_, .name hkey' hvacant' hvalue', .content hkey hvacant hvalue⟩
    | content _ htaken _ => exact absurd htaken (by simp)
    | encoding hkey' hvacant' hvalue' =>
      exact ⟨_, .encoding hkey' hvacant' hvalue', .content hkey hvacant hvalue⟩
    | passed hkey' h h' h'' => exact ⟨_, .passed hkey' h h' h'', .content hkey hvacant hvalue⟩
  | encoding hkey hvacant hvalue =>
    cases hsecond with
    | name hkey' hvacant' hvalue' =>
      exact ⟨_, .name hkey' hvacant' hvalue', .encoding hkey hvacant hvalue⟩
    | content hkey' hvacant' hvalue' =>
      exact ⟨_, .content hkey' hvacant' hvalue', .encoding hkey hvacant hvalue⟩
    | encoding _ htaken _ => exact absurd htaken (by simp)
    | passed hkey' h h' h'' => exact ⟨_, .passed hkey' h h' h'', .encoding hkey hvacant hvalue⟩
  | passed hkey hname hcontent hencoding =>
    cases hsecond with
    | name hkey' hvacant hvalue =>
      exact ⟨_, .name hkey' hvacant hvalue, .passed hkey hname hcontent hencoding⟩
    | content hkey' hvacant hvalue =>
      exact ⟨_, .content hkey' hvacant hvalue, .passed hkey hname hcontent hencoding⟩
    | encoding hkey' hvacant hvalue =>
      exact ⟨_, .encoding hkey' hvacant hvalue, .passed hkey hname hcontent hencoding⟩
    | passed hkey' h h' h'' =>
      exact ⟨_, .passed hkey' h h' h'', .passed hkey hname hcontent hencoding⟩

/-- The fields of a file may stand in any order. -/
theorem fileOfEntries_eq_ok_of_perm (h : entries.Perm others)
    (hfile : fileOfEntries {} entries = .ok declaration) :
    fileOfEntries {} others = .ok declaration :=
  eq_ok_of_perm fileOfEntries_cons_eq_ok_iff FileFields.Takes.swap h hfile

/-! ## Directories -/

/-- What an entry makes of the fields of a directory, if it is accepted. -/
inductive DirectoryFields.Takes (fields : DirectoryFields) (entry : Value × Value) :
    DirectoryFields → Prop
  | name {name : String} (hkey : fieldOfKey [.name, .children] entry.1 = .ok (some .name))
      (hvacant : fields.name = none) (hvalue : nameOfValue entry.2 = .ok name) :
      Takes fields entry { fields with name := some name }
  | children {children : List Declaration}
      (hkey : fieldOfKey [.name, .children] entry.1 = .ok (some .children))
      (hvacant : fields.children = none) (hvalue : childrenOfValue entry.2 = .ok children) :
      Takes fields entry { fields with children := some children }
  | passed {field : Option Field} (hkey : fieldOfKey [.name, .children] entry.1 = .ok field)
      (hname : field ≠ some .name) (hchildren : field ≠ some .children) :
      Takes fields entry fields

theorem directoryOfEntries_cons_eq_ok_iff {fields : DirectoryFields} {entry : Value × Value} :
    directoryOfEntries fields (entry :: entries) = .ok declaration ↔
      ∃ next, fields.Takes entry next ∧ directoryOfEntries next entries = .ok declaration := by
  obtain ⟨key, value⟩ := entry
  rw [directoryOfEntries]
  constructor
  · intro h
    obtain ⟨field, hkey, h⟩ := bind_eq_ok_iff.mp h
    split at h
    · split_ifs at h with hgiven
      obtain ⟨name, hvalue, h⟩ := bind_eq_ok_iff.mp h
      exact ⟨_, .name hkey (by simpa using hgiven) hvalue, h⟩
    · split_ifs at h with hgiven
      obtain ⟨children, hvalue, h⟩ := bind_eq_ok_iff.mp h
      exact ⟨_, .children hkey (by simpa using hgiven) hvalue, h⟩
    · next hname hchildren => exact ⟨fields, .passed hkey hname hchildren, h⟩
  · rintro ⟨next, htakes, h⟩
    cases htakes with
    | name hkey hvacant hvalue | children hkey hvacant hvalue =>
      refine bind_eq_ok_iff.mpr ⟨_, hkey, ?_⟩
      simp only [hvacant, Option.isSome_none, Bool.false_eq_true, if_false]
      exact bind_eq_ok_iff.mpr ⟨_, hvalue, h⟩
    | @passed field hkey hname hchildren =>
      refine bind_eq_ok_iff.mpr ⟨_, hkey, ?_⟩
      split
      · exact absurd rfl hname
      · exact absurd rfl hchildren
      · exact h

theorem DirectoryFields.Takes.swap {fields next last : DirectoryFields}
    {first second : Value × Value} (hfirst : fields.Takes first next)
    (hsecond : next.Takes second last) :
    ∃ other, fields.Takes second other ∧ other.Takes first last := by
  cases hfirst with
  | name hkey hvacant hvalue =>
    cases hsecond with
    | name _ htaken _ => exact absurd htaken (by simp)
    | children hkey' hvacant' hvalue' =>
      exact ⟨_, .children hkey' hvacant' hvalue', .name hkey hvacant hvalue⟩
    | passed hkey' h h' => exact ⟨_, .passed hkey' h h', .name hkey hvacant hvalue⟩
  | children hkey hvacant hvalue =>
    cases hsecond with
    | name hkey' hvacant' hvalue' =>
      exact ⟨_, .name hkey' hvacant' hvalue', .children hkey hvacant hvalue⟩
    | children _ htaken _ => exact absurd htaken (by simp)
    | passed hkey' h h' => exact ⟨_, .passed hkey' h h', .children hkey hvacant hvalue⟩
  | passed hkey hname hchildren =>
    cases hsecond with
    | name hkey' hvacant hvalue =>
      exact ⟨_, .name hkey' hvacant hvalue, .passed hkey hname hchildren⟩
    | children hkey' hvacant hvalue =>
      exact ⟨_, .children hkey' hvacant hvalue, .passed hkey hname hchildren⟩
    | passed hkey' h h' => exact ⟨_, .passed hkey' h h', .passed hkey hname hchildren⟩

/-- The fields of a directory may stand in any order. -/
theorem directoryOfEntries_eq_ok_of_perm (h : entries.Perm others)
    (hdirectory : directoryOfEntries {} entries = .ok declaration) :
    directoryOfEntries {} others = .ok declaration :=
  eq_ok_of_perm directoryOfEntries_cons_eq_ok_iff DirectoryFields.Takes.swap h hdirectory

/-- A mapping that declares a node declares it with its entries in any order. -/
theorem declaration_mapping_of_perm (h : entries.Perm others)
    (hdeclaration : (Value.mapping entries).declaration = .ok declaration) :
    (Value.mapping others).declaration = .ok declaration := by
  rw [Value.declaration] at hdeclaration ⊢
  obtain ⟨kind, hkind, hdeclaration⟩ := bind_eq_ok_iff.mp hdeclaration
  refine bind_eq_ok_iff.mpr ⟨kind, kindOfEntries_eq_ok_of_perm h hkind, ?_⟩
  cases kind with
  | file => exact fileOfEntries_eq_ok_of_perm h hdeclaration
  | directory => exact directoryOfEntries_eq_ok_of_perm h hdeclaration

end TreeShell.Document
