import Mathlib.Data.List.Basic
import Mathlib.Tactic.SplitIfs
import Mathlib.Tactic.Tauto
import TreeShell.Path

/-!
# Canonical paths

A canonical path and the list of names it is written from determine each other: `render` writes the
names, `segments` reads them back, and `normalize` leaves the path as it is. Every path that
`normalize` or `resolve` gives is canonical, and resolving a target from a canonical cursor follows
the parts of the target from the names of the cursor. A name that is joined to a canonical path
gives a canonical path, and every canonical path but the root comes about in this way.
-/

namespace TreeShell.Path

/-- A name that a canonical path can hold. -/
def IsName (name : String) : Prop :=
  name ≠ "" ∧ '/' ∉ name.toList ∧ name ≠ "." ∧ name ≠ ".."

/-- A path that is written from names alone. -/
def IsCanonical (path : String) : Prop :=
  ∃ names, (∀ name ∈ names, IsName name) ∧ path = render names

/-! ## Parts and segments -/

theorem not_mem_of_mem_splitOn {α : Type} [BEq α] [LawfulBEq α] {a : α} {xs piece : List α}
    (h : piece ∈ xs.splitOn a) : a ∉ piece := by
  induction xs generalizing piece with
  | nil =>
    rw [List.splitOn_nil, List.mem_singleton] at h
    subst h
    exact List.not_mem_nil
  | cons x xs ih =>
    rw [List.splitOn_cons_eq_if_modifyHead] at h
    obtain ⟨first, others, hsplit⟩ := List.exists_cons_of_ne_nil (List.splitOn_ne_nil a xs)
    rw [hsplit] at h ih
    by_cases hx : (x == a) = true
    · rw [if_pos hx] at h
      rcases List.mem_cons.mp h with rfl | h
      · exact List.not_mem_nil
      · exact ih h
    · rw [if_neg hx, List.modifyHead_cons] at h
      rcases List.mem_cons.mp h with rfl | h
      · intro hmem
        rcases List.mem_cons.mp hmem with rfl | hmem
        · exact hx (BEq.refl a)
        · exact ih List.mem_cons_self hmem
      · exact ih (List.mem_cons_of_mem first h)

theorem slash_not_mem_of_mem_parts {path part : String} (h : part ∈ parts path) :
    '/' ∉ part.toList := by
  obtain ⟨piece, hpiece, rfl⟩ := List.mem_map.mp h
  rw [String.toList_ofList]
  exact not_mem_of_mem_splitOn hpiece

theorem parts_append (front back : String) :
    parts (front ++ "/" ++ back) = parts front ++ parts back := by
  have hchars : (front ++ "/" ++ back).toList = front.toList ++ '/' :: back.toList := by simp
  rw [parts, hchars, List.splitOn_append_cons_self, List.map_append]
  rfl

theorem parts_of_slash_not_mem {name : String} (h : '/' ∉ name.toList) : parts name = [name] := by
  rw [parts, List.splitOn_eq_singleton h, List.map_singleton, String.ofList_toList]

/-- Names that are written behind a path, each after a slash, come last among its parts. -/
theorem parts_append_join (path : String) (names : List String)
    (h : ∀ name ∈ names, '/' ∉ name.toList) :
    parts (path ++ String.join (names.map ("/" ++ ·))) = parts path ++ names := by
  induction names generalizing path with
  | nil => simp
  | cons name names ih =>
    have hname := parts_of_slash_not_mem (h name List.mem_cons_self)
    have htext : path ++ String.join ((name :: names).map ("/" ++ ·)) =
        path ++ "/" ++ name ++ String.join (names.map ("/" ++ ·)) := by
      simp [String.append_assoc]
    rw [htext, ih _ fun other hother => h other (List.mem_cons_of_mem name hother), parts_append,
      hname, List.append_assoc, List.singleton_append]

/-- Reading a path that was written from segments gives these segments. -/
theorem segments_render {names : List String}
    (h : ∀ name ∈ names, name ≠ "" ∧ '/' ∉ name.toList) : segments (render names) = names := by
  have hfilter : names.filter (· ≠ "") = names :=
    List.filter_eq_self.mpr fun name hname => by simpa using (h name hname).1
  cases names with
  | nil => decide
  | cons name names =>
    have hparts := parts_append_join "" (name :: names) fun other hother => (h other hother).2
    rw [String.empty_append] at hparts
    rw [segments, render, hparts]
    · simpa [parts] using hfilter
    · exact List.cons_ne_nil name names

theorem splitParent_eq_none_iff {path : String} : splitParent path = none ↔ segments path = [] := by
  rw [splitParent, Option.map_eq_none_iff, List.getLast?_eq_none_iff]

/-- The root has no last segment, and every other path splits at it. -/
theorem splitParent_eq_some_iff {path leaf : String} {parent : List String} :
    splitParent path = some (parent, leaf) ↔ segments path = parent ++ [leaf] := by
  rw [splitParent, Option.map_eq_some_iff]
  constructor
  · rintro ⟨last, hlast, heq⟩
    obtain ⟨rfl, rfl⟩ := Prod.mk.inj heq
    exact (List.dropLast_append_getLast? last hlast).symm
  · intro h
    rw [h]
    exact ⟨leaf, List.getLast?_concat, by rw [List.dropLast_concat]⟩

/-! ## Following parts -/

theorem step_of_isName {name : String} (h : IsName name) (place : List String) :
    step place name = name :: place := by
  obtain ⟨hempty, -, hdot, hdots⟩ := h
  rw [step, if_neg (by simp [hempty, hdot]), if_neg hdots]

/-- Names are passed one after the other. -/
theorem foldl_step_of_isName {names : List String} (h : ∀ name ∈ names, IsName name)
    (place : List String) : names.foldl step place = names.reverse ++ place := by
  induction names generalizing place with
  | nil => rfl
  | cons name names ih =>
    rw [List.foldl_cons, step_of_isName (h name List.mem_cons_self),
      ih fun other hother => h other (List.mem_cons_of_mem name hother), List.reverse_cons,
      List.append_assoc, List.singleton_append]

/-- One part leads from a place of names to a place of names. -/
theorem isName_of_mem_step {place : List String} {part : String}
    (hplace : ∀ name ∈ place, IsName name) (hpart : '/' ∉ part.toList) :
    ∀ name ∈ step place part, IsName name := by
  unfold step
  split_ifs with hstay hup
  · exact hplace
  · exact fun name hname => hplace name (List.mem_of_mem_tail hname)
  · intro name hname
    rcases List.mem_cons.mp hname with rfl | hname
    · rw [not_or] at hstay
      exact ⟨hstay.1, hpart, hstay.2, hup⟩
    · exact hplace name hname

theorem isName_of_mem_foldl_step {list place : List String}
    (hplace : ∀ name ∈ place, IsName name) (hlist : ∀ part ∈ list, '/' ∉ part.toList) :
    ∀ name ∈ list.foldl step place, IsName name := by
  induction list generalizing place with
  | nil => exact hplace
  | cons part list ih =>
    exact ih (isName_of_mem_step hplace (hlist part List.mem_cons_self))
      fun other hother => hlist other (List.mem_cons_of_mem part hother)

theorem isName_of_mem_follow {path name : String} (h : name ∈ follow (parts path)) :
    IsName name :=
  isName_of_mem_foldl_step (fun _ hnil => absurd hnil List.not_mem_nil)
    (fun _ hpart => slash_not_mem_of_mem_parts hpart) name (List.mem_reverse.mp h)

/-- Parts that are no names only step back, so that the place they lead to is on the way. -/
theorem foldl_step_suffix {list : List String}
    (h : ∀ part ∈ list, part = "" ∨ part = "." ∨ part = "..") (place : List String) :
    list.foldl step place <:+ place := by
  induction list generalizing place with
  | nil => exact List.suffix_refl place
  | cons part list ih =>
    refine (ih (fun other hother => h other (List.mem_cons_of_mem part hother)) _).trans ?_
    unfold step
    split_ifs with hstay hup
    · exact List.suffix_refl place
    · exact List.tail_suffix place
    · have hpart := h part List.mem_cons_self
      rw [not_or] at hstay
      tauto

/-! ## Canonical paths -/

theorem segments_render_of_isName {names : List String} (h : ∀ name ∈ names, IsName name) :
    segments (render names) = names :=
  segments_render fun name hname => ⟨(h name hname).1, (h name hname).2.1⟩

theorem segments_normalize (path : String) : segments (normalize path) = follow (parts path) :=
  segments_render_of_isName fun _ => isName_of_mem_follow

theorem isCanonical_normalize (path : String) : IsCanonical (normalize path) :=
  ⟨follow (parts path), fun _ => isName_of_mem_follow, rfl⟩

theorem isCanonical_root : IsCanonical "/" := ⟨[], by simp, rfl⟩

theorem isCanonical_resolve (cursor target : String) : IsCanonical (resolve cursor target) := by
  unfold resolve
  split_ifs
  · exact isCanonical_normalize target
  · exact isCanonical_normalize (cursor ++ "/" ++ target)

/-- The names that a canonical path is written from lead to the place it names. -/
theorem follow_parts_render {names : List String} (h : ∀ name ∈ names, IsName name) :
    follow (parts (render names)) = names := by
  cases names with
  | nil => decide
  | cons name names =>
    have hparts := parts_append_join "" (name :: names) fun other hother => (h other hother).2.1
    rw [String.empty_append] at hparts
    have hempty : parts "" = [""] := by decide
    have hstay : step [] "" = [] := by decide
    rw [render, hparts, hempty, follow, List.singleton_append, List.foldl_cons, hstay,
      foldl_step_of_isName h, List.append_nil, List.reverse_reverse]
    exact List.cons_ne_nil name names

theorem normalize_of_isCanonical {path : String} (h : IsCanonical path) :
    normalize path = path := by
  obtain ⟨names, hnames, rfl⟩ := h
  rw [normalize, follow_parts_render hnames]

theorem render_segments {path : String} (h : IsCanonical path) : render (segments path) = path := by
  calc render (segments path) = render (segments (normalize path)) := by
        rw [normalize_of_isCanonical h]
    _ = normalize path := by rw [segments_normalize, normalize]
    _ = path := normalize_of_isCanonical h

/-! ## Resolving from a cursor -/

/-- Resolving a relative target follows its parts from the names of the cursor. -/
theorem segments_resolve {cursor target : String} (hcursor : IsCanonical cursor)
    (htarget : target.toList.head? ≠ some '/') :
    segments (resolve cursor target) =
      ((parts target).foldl step (segments cursor).reverse).reverse := by
  have hfollow : (parts cursor).foldl step [] = (segments cursor).reverse := by
    rw [← normalize_of_isCanonical hcursor, segments_normalize, normalize_of_isCanonical hcursor,
      follow, List.reverse_reverse]
  rw [resolve, if_neg htarget, segments_normalize, parts_append, follow, List.foldl_append, hfollow]

/-- A target without names resolves to a place on the way to the cursor. -/
theorem segments_resolve_prefix {cursor target : String} (hcursor : IsCanonical cursor)
    (h : ∀ part ∈ parts target, part = "" ∨ part = "." ∨ part = "..") :
    segments (resolve cursor target) <+: segments cursor := by
  by_cases htarget : target.toList.head? = some '/'
  · have hroot : (parts target).foldl step [] = [] :=
      List.suffix_nil.mp (foldl_step_suffix h [])
    rw [resolve, if_pos htarget, segments_normalize, follow, hroot]
    exact List.nil_prefix
  · rw [segments_resolve hcursor htarget]
    have hsuffix := foldl_step_suffix h (segments cursor).reverse
    rwa [← List.reverse_prefix, List.reverse_reverse] at hsuffix

/-- The parent of a canonical path, which for the root is the root itself. -/
theorem resolve_parent {cursor : String} (hcursor : IsCanonical cursor) :
    resolve cursor ".." = render (segments cursor).dropLast := by
  have hcanonical := isCanonical_resolve cursor ".."
  have hparts : parts ".." = [".."] := by decide
  have hstep (place : List String) : step place ".." = place.tail := by simp [step]
  rw [← render_segments hcanonical, segments_resolve hcursor (by decide), hparts, List.foldl_cons,
    List.foldl_nil, hstep, List.tail_reverse, List.reverse_reverse]

theorem resolve_dot {cursor : String} (hcursor : IsCanonical cursor) :
    resolve cursor "." = cursor := by
  have hcanonical := isCanonical_resolve cursor "."
  have hparts : parts "." = ["."] := by decide
  have hstay (place : List String) : step place "." = place := by simp [step]
  rw [← render_segments hcanonical, segments_resolve hcursor (by decide), hparts, List.foldl_cons,
    List.foldl_nil, hstay, List.reverse_reverse, render_segments hcursor]

/-- A name leads from the cursor one name further. -/
theorem segments_resolve_of_isName {cursor name : String} (hcursor : IsCanonical cursor)
    (hname : IsName name) : segments (resolve cursor name) = segments cursor ++ [name] := by
  have hrelative : name.toList.head? ≠ some '/' := by
    intro hslash
    exact hname.2.1 (List.mem_of_head? hslash)
  rw [segments_resolve hcursor hrelative, parts_of_slash_not_mem hname.2.1, List.foldl_cons,
    List.foldl_nil, step_of_isName hname, List.reverse_cons, List.reverse_reverse]

/-! ## Names of a canonical path -/

theorem isName_of_mem_segments {path name : String} (h : IsCanonical path)
    (hname : name ∈ segments path) : IsName name := by
  rw [← normalize_of_isCanonical h, segments_normalize] at hname
  exact isName_of_mem_follow hname

/-- Every canonical path but the root has a last name. -/
theorem isName_basename {path : String} (h : IsCanonical path) (hroot : segments path ≠ []) :
    IsName (basename path) := by
  rw [basename, List.getLast?_eq_some_getLast hroot, Option.getD_some]
  exact isName_of_mem_segments h (List.getLast_mem hroot)

theorem render_concat (names : List String) (name : String) :
    render (names ++ [name]) = String.join (names.map ("/" ++ ·)) ++ "/" ++ name := by
  have hne : names ++ [name] ≠ [] := by simp
  rw [render, List.map_append, String.join_append, List.map_singleton, String.join_cons,
    String.join_nil, String.append_empty, String.append_assoc]
  exact hne

/-- Joining a name to a canonical path writes one name more. -/
theorem join_render {names : List String} (h : ∀ other ∈ names, IsName other) (name : String) :
    join (render names) name = render (names ++ [name]) := by
  rcases List.eq_nil_or_concat names with rfl | ⟨front, last, hnames⟩
  · have hroot : (render []).toList.getLast? = some '/' := by decide
    rw [join, if_pos hroot, List.nil_append, ← List.nil_append [name], render_concat]
    simp [render]
  · -- a path that ends in a name does not end in a slash
    rw [List.concat_eq_append] at hnames
    subst hnames
    obtain ⟨hempty, hslash, -⟩ := h last (by simp)
    have hlast : (render (front ++ [last])).toList.getLast? = last.toList.getLast? := by
      rw [render_concat, String.toList_append]
      exact List.getLast?_append_of_ne_nil _ (by simpa using hempty)
    have hend : (render (front ++ [last])).toList.getLast? ≠ some '/' := by
      rw [hlast]
      intro hmem
      exact hslash (List.mem_of_getLast? hmem)
    rw [join, if_neg hend, render_concat, render_concat, List.map_append, String.join_append]
    simp [String.append_assoc]

theorem resolve_of_isName {cursor name : String} (hcursor : IsCanonical cursor)
    (hname : IsName name) : resolve cursor name = join cursor name := by
  have hnames : ∀ other ∈ segments cursor, IsName other := fun _ => isName_of_mem_segments hcursor
  calc resolve cursor name = render (segments (resolve cursor name)) :=
        (render_segments (isCanonical_resolve cursor name)).symm
    _ = render (segments cursor ++ [name]) := by rw [segments_resolve_of_isName hcursor hname]
    _ = join (render (segments cursor)) name := (join_render hnames name).symm
    _ = join cursor name := by rw [render_segments hcursor]

theorem isName_of_mem_concat {names : List String} {name : String}
    (h : ∀ other ∈ names, IsName other) (hname : IsName name) :
    ∀ other ∈ names ++ [name], IsName other := by
  intro other hother
  rcases List.mem_append.mp hother with hother | hother
  · exact h other hother
  · rw [List.mem_singleton.mp hother]
    exact hname

theorem isCanonical_join {dir name : String} (hdir : IsCanonical dir) (hname : IsName name) :
    IsCanonical (join dir name) := by
  obtain ⟨names, hnames, rfl⟩ := hdir
  exact ⟨names ++ [name], isName_of_mem_concat hnames hname, join_render hnames name⟩

theorem segments_join {dir name : String} (hdir : IsCanonical dir) (hname : IsName name) :
    segments (join dir name) = segments dir ++ [name] := by
  obtain ⟨names, hnames, rfl⟩ := hdir
  rw [join_render hnames, segments_render_of_isName (isName_of_mem_concat hnames hname),
    segments_render_of_isName hnames]

/-! ## The form of a canonical path -/

theorem render_eq_intercalate {names : List String} (h : names ≠ []) :
    render names = "/" ++ "/".intercalate names := by
  induction names with
  | nil => exact absurd rfl h
  | cons name names ih =>
    cases names with
    | nil => simp [render]
    | cons next names =>
      have hrest := ih (List.cons_ne_nil next names)
      have hcons : render (name :: next :: names) = "/" ++ name ++ render (next :: names) := by
        simp [render, String.append_assoc]
      rw [hcons, hrest, String.intercalate_cons_cons, String.append_assoc, String.append_assoc]

theorem isCanonical_iff {path : String} :
    IsCanonical path ↔ path = "/" ∨
      ∃ names, names ≠ [] ∧ (∀ name ∈ names, IsName name) ∧
        path = "/" ++ "/".intercalate names := by
  constructor
  · rintro ⟨names, hnames, rfl⟩
    by_cases hnil : names = []
    · subst hnil
      exact Or.inl rfl
    · exact Or.inr ⟨names, hnil, hnames, render_eq_intercalate hnil⟩
  · rintro (rfl | ⟨names, hnil, hnames, rfl⟩)
    · exact isCanonical_root
    · exact ⟨names, hnames, (render_eq_intercalate hnil).symm⟩

theorem normalize_eq_self_iff {path : String} : normalize path = path ↔ IsCanonical path :=
  ⟨fun h => h ▸ isCanonical_normalize path, normalize_of_isCanonical⟩

theorem splitParent_join {dir name : String} (hdir : IsCanonical dir) (hname : IsName name) :
    splitParent (join dir name) = some (segments dir, name) :=
  splitParent_eq_some_iff.mpr (segments_join hdir hname)

theorem basename_join {dir name : String} (hdir : IsCanonical dir) (hname : IsName name) :
    basename (join dir name) = name := by
  rw [basename, segments_join hdir hname, List.getLast?_concat, Option.getD_some]

/-- A canonical path is the path of its parent, joined to its last name. -/
theorem exists_join_eq {path : String} (h : IsCanonical path) (hroot : path ≠ "/") :
    ∃ parent leaf, splitParent path = some (parent, leaf) ∧ join (render parent) leaf = path := by
  have hnil : segments path ≠ [] := by
    intro hnil
    have hpath := render_segments h
    rw [hnil] at hpath
    exact hroot hpath.symm
  obtain ⟨parent, leaf, hsegments⟩ : ∃ parent leaf, segments path = parent ++ [leaf] :=
    ⟨_, _, (List.dropLast_append_getLast hnil).symm⟩
  refine ⟨parent, leaf, splitParent_eq_some_iff.mpr hsegments, ?_⟩
  have hparent : ∀ name ∈ parent, IsName name := by
    intro name hname
    refine isName_of_mem_segments h ?_
    rw [hsegments]
    exact List.mem_append_left [leaf] hname
  rw [join_render hparent, ← hsegments, render_segments h]

/-- Normalizing gives the root, or names with a slash before each, and leaves just these paths as
they are. Such a path and its segments determine each other. To join a name to it adds this name as
the last segment, and every such path but the root is its parent with its last segment joined to
it. -/
theorem canonical_paths_are_lists_of_names (path dir name : String) (names : List String) :
    (IsCanonical path ↔ path = "/" ∨
      ∃ names, names ≠ [] ∧ (∀ name ∈ names, IsName name) ∧
        path = "/" ++ "/".intercalate names) ∧
    IsCanonical (normalize path) ∧
    normalize (normalize path) = normalize path ∧
    (normalize path = path ↔ IsCanonical path) ∧
    (IsCanonical path → render (segments path) = path) ∧
    ((∀ name ∈ names, IsName name) →
      IsCanonical (render names) ∧ segments (render names) = names) ∧
    (IsCanonical dir → IsName name →
      IsCanonical (join dir name) ∧ splitParent (join dir name) = some (segments dir, name) ∧
      basename (join dir name) = name) ∧
    (IsCanonical path → path ≠ "/" →
      ∃ parent leaf, splitParent path = some (parent, leaf) ∧
        join (render parent) leaf = path) := by
  have hcanonical := isCanonical_normalize path
  refine ⟨isCanonical_iff, hcanonical, normalize_of_isCanonical hcanonical, normalize_eq_self_iff,
    render_segments, ?_, ?_, exists_join_eq⟩
  · intro hnames
    exact ⟨⟨names, hnames, rfl⟩, segments_render_of_isName hnames⟩
  · intro hdir hname
    exact ⟨isCanonical_join hdir hname, splitParent_join hdir hname, basename_join hdir hname⟩

/-- Names that start with dots, below the root and below another name. -/
theorem dotted_names_are_joined :
    (IsCanonical "/..." ∧ IsName ".a" ∧ (∀ name ∈ ["...", ".a"], IsName name) ∧ "/..." ≠ "/") ∧
      render (segments "/...") = "/..." ∧
      segments (render ["...", ".a"]) = ["...", ".a"] ∧
      splitParent (join "/..." ".a") = some (segments "/...", ".a") ∧
      basename (join "/..." ".a") = ".a" ∧
      ∃ parent leaf, splitParent "/..." = some (parent, leaf) ∧
        join (render parent) leaf = "/..." := by
  have hdots : IsName "..." := ⟨by decide, by decide, by decide, by decide⟩
  have hname : IsName ".a" := ⟨by decide, by decide, by decide, by decide⟩
  have hdir : IsCanonical "/..." := ⟨["..."], List.forall_mem_singleton.mpr hdots, by decide⟩
  have hnames : ∀ name ∈ ["...", ".a"], IsName name :=
    List.forall_mem_cons.mpr ⟨hdots, List.forall_mem_singleton.mpr hname⟩
  have hroot : "/..." ≠ "/" := by decide
  obtain ⟨-, -, -, -, hrender, hnamesRender, hjoin, hparent⟩ :=
    canonical_paths_are_lists_of_names "/..." "/..." ".a" ["...", ".a"]
  exact ⟨⟨hdir, hname, hnames, hroot⟩, hrender hdir, (hnamesRender hnames).2,
    (hjoin hdir hname).2.1, (hjoin hdir hname).2.2, hparent hdir hroot⟩

end TreeShell.Path
