import TreeShell.Proofs.ChildOrder

/-!
# Creations that do not meet

Two creations that both succeed, with different targets, do so in either order: what one of them adds
is not what the other looks at, because a creation looks only at what is there and at the place of
its own target. Either way the tree is updated at the same two points, so that both trees look the
same; and trees with distinct siblings that look the same are one up to the order of children.
-/

namespace TreeShell.FileSystem

variable {fs one other : FileSystem}

/-! ## What a creation looks at -/

/-- A creation that succeeds makes the view show its node at its target. -/
theorem Creation.view_of_run {creation : Creation} (h : creation.run fs = .ok one) :
    one.view = Function.update fs.view (Path.segments creation.target)
      ((creation.product? fs).map Node.surface) := by
  obtain ⟨new, parent, leaf, hproduct, hsegments, hupdate⟩ := pointUpdate_of_run h
  rw [hupdate.view_eq, hproduct, hsegments, Option.map_some]

/-- What is seen stays when a creation succeeds. -/
theorem Creation.view_eq_of_some {creation : Creation} (h : creation.run fs = .ok one)
    {names : List String} {shown : Surface} (hshown : fs.view names = some shown) :
    one.view names = some shown := by
  obtain ⟨new, parent, leaf, -, -, hupdate⟩ := pointUpdate_of_run h
  exact hupdate.view_eq_of_some hshown

/-- A creation goes on to make the same node while what is seen stays. -/
theorem Creation.product?_of_view {creation : Creation} {new : Node}
    (hview : ∀ names shown, fs.view names = some shown → one.view names = some shown)
    (h : creation.product? fs = some new) : creation.product? one = some new := by
  cases creation with
  | directory path => exact h
  | file path content => exact h
  | copy source path =>
    obtain ⟨content, horigin, rfl⟩ := product?_copy_eq_some_iff.mp h
    exact product?_copy_eq_some_iff.mpr ⟨content, hview _ _ horigin, rfl⟩

/-! ## One creation after another -/

/-- A creation that succeeds still succeeds after another one with another target, and makes the same
node. -/
theorem Creation.exists_run_after {first second : Creation} (hfirst : first.run fs = .ok one)
    (hsecond : second.run fs = .ok other)
    (hne : Path.segments first.target ≠ Path.segments second.target) :
    ∃ both, second.run one = .ok both ∧ second.product? one = second.product? fs := by
  obtain ⟨hfree, new, hproduct⟩ := exists_run_eq_ok_iff.mp ⟨other, hsecond⟩
  obtain ⟨hvacant, hparent⟩ := isFree_iff_view.mp hfree
  have hstillFree : one.IsFree second.target := by
    refine isFree_iff_view.mpr ⟨?_, view_eq_of_some hfirst hparent⟩
    rw [view_of_run hfirst, Function.update_of_ne hne.symm, hvacant]
  have hstillMade : second.product? one = some new :=
    product?_of_view (fun _ _ => view_eq_of_some hfirst) hproduct
  obtain ⟨both, hboth⟩ := exists_run_eq_ok_iff.mpr ⟨hstillFree, new, hstillMade⟩
  exact ⟨both, hboth, hstillMade.trans hproduct.symm⟩

/-- A creation that succeeds keeps siblings distinct. -/
theorem Creation.distinct_of_run {creation : Creation} (h : fs.root.Named fun _ => True)
    (hrun : creation.run fs = .ok one) : one.root.Named fun _ => True :=
  named_of_run h (fun _ _ _ => trivial) hrun

theorem Creation.source_eq_of_run {creation : Creation} (h : creation.run fs = .ok one) :
    one.source = fs.source := by
  obtain ⟨new, parent, leaf, -, -, hupdate⟩ := pointUpdate_of_run h
  exact hupdate.source_eq

/-- Two creations that succeed, with different targets, succeed one after the other in either order,
and the trees they lead to are one up to the order of children, so that nothing tells them apart. -/
theorem independent_creations_commute {allowed : String → Prop} (hnamed : fs.root.Named allowed)
    {first second : Creation} (hfirst : first.run fs = .ok one)
    (hsecond : second.run fs = .ok other)
    (htargets : Path.segments first.target ≠ Path.segments second.target) :
    ∃ both twin, second.run one = .ok both ∧ first.run other = .ok twin ∧ both.Reordered twin ∧
      ∀ path, both.list path = twin.list path ∧ both.read path = twin.read path ∧
        both.exists? path = twin.exists? path ∧ both.isDirectory path = twin.isDirectory path := by
  obtain ⟨both, hboth, hlater⟩ := Creation.exists_run_after hfirst hsecond htargets
  obtain ⟨twin, htwin, hearlier⟩ := Creation.exists_run_after hsecond hfirst htargets.symm
  have hdistinct : fs.root.Named fun _ => True := hnamed.mono fun _ _ => trivial
  have hview : both.view = twin.view := by
    rw [Creation.view_of_run hboth, Creation.view_of_run htwin, Creation.view_of_run hfirst,
      Creation.view_of_run hsecond, hlater, hearlier, Function.update_comm htargets]
  have hroots : both.root.Reordered twin.root := by
    refine Node.Named.reordered_of_view_eq
      (Creation.distinct_of_run (Creation.distinct_of_run hdistinct hfirst) hboth)
      (Creation.distinct_of_run (Creation.distinct_of_run hdistinct hsecond) htwin) ?_
    intro names
    exact congrFun hview names
  have hsource : both.source = twin.source := by
    rw [Creation.source_eq_of_run hboth, Creation.source_eq_of_run htwin,
      Creation.source_eq_of_run hfirst, Creation.source_eq_of_run hsecond]
  have hreordered : both.Reordered twin := ⟨hroots, hsource⟩
  refine ⟨both, twin, hboth, htwin, hreordered, ?_⟩
  intro path
  exact ⟨hreordered.list_eq path, hreordered.read_eq path, hreordered.exists?_eq path,
    hreordered.isDirectory_eq path⟩

/-- A directory and a copy are made beside a file in either order. The two trees keep their children
in different orders. -/
theorem directory_and_copy_beside_file_commute :
    let first : Creation := .directory "/d"
    let second : Creation := .copy "/a" "/b"
    let fs : FileSystem := { root := .directory [("a", .file "x")] }
    let one : FileSystem := { root := .directory [("a", .file "x"), ("d", .empty)] }
    let other : FileSystem := { root := .directory [("a", .file "x"), ("b", .file "x")] }
    fs.root.Named (fun _ => True) ∧ first.run fs = .ok one ∧ second.run fs = .ok other ∧
      Path.segments first.target ≠ Path.segments second.target ∧
      ∃ both twin, second.run one = .ok both ∧ first.run other = .ok twin ∧
        both.root ≠ twin.root ∧ both.Reordered twin := by
  intro first second fs one other
  have hnamed : fs.root.Named fun _ => True := by
    refine .directory (by decide) (fun _ _ => trivial) ?_
    intro child hchild
    rw [List.mem_singleton.mp hchild]
    exact .file "x"
  have hfirst : first.run fs = .ok one := rfl
  have hsecond : second.run fs = .ok other := rfl
  have htargets : Path.segments first.target ≠ Path.segments second.target := by decide
  obtain ⟨both, twin, hboth, htwin, hreordered, -⟩ :=
    independent_creations_commute hnamed hfirst hsecond htargets
  refine ⟨hnamed, hfirst, hsecond, htargets, both, twin, hboth, htwin, ?_, hreordered⟩
  have hcopied : second.run one =
      .ok { root := .directory [("a", .file "x"), ("d", .empty), ("b", .file "x")] } := rfl
  have hmade : first.run other =
      .ok { root := .directory [("a", .file "x"), ("b", .file "x"), ("d", .empty)] } := rfl
  obtain rfl := Except.ok.inj (hcopied.symm.trans hboth)
  obtain rfl := Except.ok.inj (hmade.symm.trans htwin)
  simp

end TreeShell.FileSystem
