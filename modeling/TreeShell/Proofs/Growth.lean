import Mathlib.Logic.Relation
import TreeShell.Proofs.Creation

/-!
# Growth

Whatever a session does to its tree is a sequence of creations at canonical paths that bring in no
content of their own: directories, empty files and copies. Such growth loses nothing, for what was
seen at some names is seen there ever after, and it invents nothing, for every file that is not
empty has the content of a file that was there at the start.
-/

namespace TreeShell.FileSystem

/-- A creation that brings in no content of its own. -/
def Creation.IsPlain : Creation → Prop
  | .file _ content => content = ""
  | .directory _ | .copy _ _ => True

/-- One plain creation at a canonical path leads from the first file system to the second. -/
def Grows (fs after : FileSystem) : Prop :=
  ∃ creation : Creation, creation.IsPlain ∧ Path.IsCanonical creation.target ∧
    creation.run fs = .ok after

/-- Plain creations, one after the other, lead from the first file system to the second. -/
abbrev Growth : FileSystem → FileSystem → Prop := Relation.ReflTransGen Grows

variable {fs after : FileSystem}

theorem PointUpdate.view_eq_of_some {parent names : List String} {leaf : String} {new : Node}
    {shown : Surface} (h : PointUpdate fs parent leaf new after)
    (hshown : fs.view names = some shown) : after.view names = some shown := by
  have hne : names ≠ parent ++ [leaf] := by
    rintro rfl
    rw [h.vacant] at hshown
    exact absurd hshown (by simp)
  rw [h.view_eq, Function.update_of_ne hne, hshown]

/-- Growth loses nothing. -/
theorem Growth.view_eq_of_some {names : List String} {shown : Surface} (h : Growth fs after)
    (hshown : fs.view names = some shown) : after.view names = some shown := by
  induction h with
  | refl => exact hshown
  | tail _ hgrows ih =>
    obtain ⟨creation, -, -, hrun⟩ := hgrows
    obtain ⟨new, parent, leaf, -, -, hupdate⟩ := Creation.pointUpdate_of_run hrun
    exact hupdate.view_eq_of_some ih

theorem Growth.isDirectory {path : String} (h : Growth fs after)
    (hpath : fs.isDirectory path = true) : after.isDirectory path = true :=
  isDirectory_iff.mpr (h.view_eq_of_some (isDirectory_iff.mp hpath))

theorem Growth.read_eq_ok {path content : String} (h : Growth fs after)
    (hpath : fs.read path = .ok content) : after.read path = .ok content :=
  read_eq_ok_iff.mpr (h.view_eq_of_some (read_eq_ok_iff.mp hpath))

/-- The file of a plain creation is empty or has the content of its source. -/
theorem Creation.origin_of_product? {creation : Creation} {new : Node} {content : String}
    (hplain : creation.IsPlain) (hproduct : creation.product? fs = some new)
    (hnew : new.surface = .file content) (hcontent : content ≠ "") :
    ∃ origin, fs.view origin = some (.file content) := by
  cases creation with
  | directory path =>
    rw [← Option.some.inj hproduct] at hnew
    exact absurd hnew (by simp [Node.empty, Node.surface])
  | file path text =>
    rw [← Option.some.inj hproduct] at hnew
    exact absurd ((Surface.file.inj hnew).symm.trans hplain) hcontent
  | copy source path =>
    rw [product?] at hproduct
    split at hproduct
    · next text hview =>
      rw [← Option.some.inj hproduct] at hnew
      rw [← Surface.file.inj hnew]
      exact ⟨_, hview⟩
    · exact absurd hproduct (by simp)

/-- Growth invents nothing. -/
theorem Growth.exists_origin {names : List String} {content : String} (h : Growth fs after)
    (hfile : after.view names = some (.file content)) (hcontent : content ≠ "") :
    ∃ origin, fs.view origin = some (.file content) := by
  induction h generalizing names with
  | refl => exact ⟨names, hfile⟩
  | tail _ hgrows ih =>
    obtain ⟨creation, hplain, -, hrun⟩ := hgrows
    obtain ⟨new, parent, leaf, hproduct, -, hupdate⟩ := Creation.pointUpdate_of_run hrun
    rw [hupdate.view_eq] at hfile
    by_cases hnames : names = parent ++ [leaf]
    · -- the file is the new node, and its source was there before
      rw [hnames, Function.update_self] at hfile
      obtain ⟨origin, horigin⟩ :=
        Creation.origin_of_product? hplain hproduct (Option.some.inj hfile) hcontent
      exact ih horigin
    · rw [Function.update_of_ne hnames] at hfile
      exact ih hfile

end TreeShell.FileSystem
