import TreeShell.Proofs.Locality

/-!
# Reading a text once

A text can be read from left to right as a row of items: references with braces, references without
them, and characters that belong to neither. Each text has one such reading. The first pass of
expansion replaces the references with braces that the reading finds, whatever the values are, but
the second pass reads the text that is left then. It may read there what nobody wrote: a value goes
on with the bare name before it, or makes a reference of a lone dollar sign, or a reference stands
inside braces that stay. That does no harm as long as what is read comes out as what was written,
and it is said here for each item when this is so. If no value holds a dollar sign, these conditions
are exact: from every item of the text on, each reference is replaced by itself, just when they hold
for all items.
-/

namespace TreeShell.Expansion

variable {env : Environment} {text : List Char}

/-! ## The reading of a text -/

/-- What a text is made of. -/
inductive Item where
  /-- A reference with braces. -/
  | braced (name : List Char)
  /-- A reference without braces. -/
  | bare (name : List Char)
  /-- A character that belongs to no reference. -/
  | plain (c : Char)

/-- A text is read as a row of items. A reference reaches as far as it can, and a character is plain
only when no reference starts with it. -/
inductive Reads : List Char → List Item → Prop
  | nil : Reads [] []
  | braced {name rest : List Char} {items : List Item} (hname : IsBracedName name)
      (h : Reads rest items) : Reads ('$' :: '{' :: (name ++ '}' :: rest)) (.braced name :: items)
  | bare {name rest : List Char} {items : List Item} (hname : IsBareName name)
      (hend : EndsName rest) (h : Reads rest items) :
      Reads ('$' :: (name ++ rest)) (.bare name :: items)
  | plain {c : Char} {cs : List Char} {items : List Item} (hbraced : c = '$' → ¬OpensBraced cs)
      (hbare : c = '$' → ¬OpensBare cs) (h : Reads cs items) : Reads (c :: cs) (.plain c :: items)

theorem exists_reads (text : List Char) : ∃ items, Reads text items := by
  -- behind a reference the reading goes on with a text that is shorter by more than one character
  induction hlength : text.length using Nat.strong_induction_on generalizing text with
  | _ n ih =>
    subst hlength
    cases text with
    | nil => exact ⟨[], .nil⟩
    | cons c cs =>
      by_cases hbraced : c = '$' ∧ OpensBraced cs
      · obtain ⟨rfl, name, rest, hname, rfl⟩ := hbraced
        have hshorter : rest.length < ('$' :: '{' :: (name ++ '}' :: rest)).length := by
          simp only [List.length_cons, List.length_append]
          omega
        obtain ⟨items, h⟩ := ih rest.length hshorter rest rfl
        exact ⟨.braced name :: items, .braced hname h⟩
      by_cases hbare : c = '$' ∧ OpensBare cs
      · obtain ⟨rfl, hopens⟩ := hbare
        obtain ⟨name, rest, hname, hend, rfl⟩ := hopens.exists_name
        have hshorter : rest.length < ('$' :: (name ++ rest)).length := by
          simp only [List.length_cons, List.length_append]
          omega
        obtain ⟨items, h⟩ := ih rest.length hshorter rest rfl
        exact ⟨.bare name :: items, .bare hname hend h⟩
      obtain ⟨items, h⟩ := ih cs.length (by simp) cs rfl
      rw [not_and] at hbraced hbare
      exact ⟨.plain c :: items, .plain hbraced hbare h⟩

theorem braced_unique {name other rest back : List Char} (hname : IsBracedName name)
    (hother : IsBracedName other) (h : name ++ '}' :: rest = other ++ '}' :: back) :
    name = other ∧ rest = back := by
  have hleft := bracedName_eq_some_iff.mpr ⟨hname, Eq.refl (name ++ '}' :: rest)⟩
  have hright := bracedName_eq_some_iff.mpr ⟨hother, h⟩
  exact Prod.mk.inj (Option.some.inj (hleft.symm.trans hright))

theorem bare_unique {name other rest back : List Char} (hname : IsBareName name)
    (hrest : EndsName rest) (hother : IsBareName other) (hback : EndsName back)
    (h : name ++ rest = other ++ back) : name = other ∧ rest = back := by
  have hleft := bareName_eq_some_iff.mpr ⟨hname, hrest, Eq.refl (name ++ rest)⟩
  have hright := bareName_eq_some_iff.mpr ⟨hother, hback, h⟩
  exact Prod.mk.inj (Option.some.inj (hleft.symm.trans hright))

/-- A text is read in one way only: the readings agree in the first item, and so the same text is
left behind it. -/
theorem Reads.eq {items others : List Item} (h : Reads text items) (hothers : Reads text others) :
    items = others := by
  induction h generalizing others with
  | nil =>
    cases hothers
    rfl
  | @braced name rest items hname h ih =>
    generalize htext : '$' :: '{' :: (name ++ '}' :: rest) = text at hothers
    cases hothers with
    | nil => exact absurd htext (by simp)
    | @braced other back others hother hback =>
      have hinner := List.tail_eq_of_cons_eq (List.tail_eq_of_cons_eq htext)
      obtain ⟨rfl, rfl⟩ := braced_unique hname hother hinner
      rw [ih hback]
    | @bare other back others hother hend hback =>
      refine absurd ⟨name, rest, hname, ?_⟩ (hother.opensBare back).not_opensBraced
      exact (List.tail_eq_of_cons_eq htext).symm
    | @plain c cs others hbraced hbare hback =>
      obtain ⟨rfl, htail⟩ := List.cons.inj htext
      exact absurd ⟨name, rest, hname, htail.symm⟩ (hbraced rfl)
  | @bare name rest items hname hend h ih =>
    generalize htext : '$' :: (name ++ rest) = text at hothers
    cases hothers with
    | nil => exact absurd htext (by simp)
    | @braced other back others hother hback =>
      refine absurd ⟨other, back, hother, ?_⟩ (hname.opensBare rest).not_opensBraced
      exact List.tail_eq_of_cons_eq htext
    | @bare other back others hother hendBack hback =>
      obtain ⟨rfl, rfl⟩ :=
        bare_unique hname hend hother hendBack (List.tail_eq_of_cons_eq htext)
      rw [ih hback]
    | @plain c cs others hbraced hbare hback =>
      obtain ⟨rfl, rfl⟩ := List.cons.inj htext
      exact absurd (hname.opensBare rest) (hbare rfl)
  | @plain c cs items hbraced hbare h ih =>
    generalize htext : c :: cs = text at hothers
    cases hothers with
    | nil => exact absurd htext (by simp)
    | @braced other back others hother hback =>
      obtain ⟨rfl, rfl⟩ := List.cons.inj htext
      exact absurd ⟨other, back, hother, rfl⟩ (hbraced rfl)
    | @bare other back others hother hend hback =>
      obtain ⟨rfl, rfl⟩ := List.cons.inj htext
      exact absurd (hother.opensBare back) (hbare rfl)
    | @plain d ds others hbracedOther hbareOther hback =>
      obtain ⟨rfl, rfl⟩ := List.cons.inj htext
      rw [ih hback]

/-! ## What becomes of an item -/

/-- An item as it is written. -/
def Item.written : Item → List Char
  | .braced name => '$' :: '{' :: (name ++ ['}'])
  | .bare name => '$' :: name
  | .plain c => [c]

/-- An item with its reference replaced, if the variable is set. -/
def Item.replaced (env : Environment) : Item → List Char
  | .braced name => substitute env name (Item.braced name).written
  | .bare name => substitute env name (Item.bare name).written
  | .plain c => [c]

/-- An item with its reference replaced, if the variable is set and the reference has braces. -/
def Item.filled (env : Environment) : Item → List Char
  | .braced name => substitute env name (Item.braced name).written
  | item => item.written

/-- The characters by which this text extends a bare name before it. -/
def extension (next : List Char) : List Char := next.takeWhile isNamePart

/-- The second pass makes of the item what was read, when the text `next` comes to stand behind it:
braces that stay enclose no reference to a variable that is set; a bare name and the longer name
that it is extended to are both not set, or the longer one is set to the value of the other before
the extension; and a lone dollar sign comes to refer at most to a variable that is not set. -/
def Item.StandsBefore (env : Environment) (next : List Char) : Item → Prop
  | .braced name => env.value? (String.ofList name) = none →
      ∀ inner, HoldsBare name inner → env.value? (String.ofList inner) = none
  | .bare name => env.value? (String.ofList (name ++ extension next)) =
      (env.value? (String.ofList name)).map (· ++ String.ofList (extension next))
  | .plain c => c = '$' → OpensBare next → env.value? (String.ofList (extension next)) = none

/-- Every item stands before what the first pass makes of the items behind it. -/
def StandApart (env : Environment) : List Item → Prop
  | [] => True
  | item :: items =>
    item.StandsBefore env (items.flatMap (Item.filled env)) ∧ StandApart env items

instance (env : Environment) (next : List Char) (item : Item) :
    Decidable (item.StandsBefore env next) :=
  match item with
  | .braced name =>
    decidable_of_iff (env.value? (String.ofList name) = none →
        ∀ entry ∈ env, ¬HoldsBare name entry.1.toList)
      (imp_congr_right fun _ => forall_value?_eq_none_iff.symm)
  | .bare name =>
    inferInstanceAs (Decidable (env.value? (String.ofList (name ++ extension next)) = _))
  | .plain c => inferInstanceAs (Decidable (c = '$' → OpensBare next → _))

instance decidableStandApart (env : Environment) :
    (items : List Item) → Decidable (StandApart env items)
  | [] => isTrue trivial
  | _ :: items =>
    have := decidableStandApart env items
    inferInstanceAs (Decidable (_ ∧ StandApart env items))

/-- No value that is looked up holds a dollar sign. -/
def DollarFree (env : Environment) : Prop :=
  ∀ name value, env.value? name = some value → '$' ∉ value.toList

theorem dollarFree_of_forall_mem (h : ∀ entry ∈ env, '$' ∉ entry.2.toList) : DollarFree env := by
  intro name value hvalue
  rw [Environment.value?, List.lookup_eq_some_iff] at hvalue
  obtain ⟨before, behind, rfl, -⟩ := hvalue
  exact h (name, value) (List.mem_append_right before List.mem_cons_self)

/-! ## The texts of items -/

theorem Reads.written_eq {items : List Item} (h : Reads text items) :
    items.flatMap Item.written = text := by
  induction h with
  | nil => rfl
  | braced _ _ ih =>
    rw [List.flatMap_cons, ih]
    exact braced_append _ _
  | bare _ _ _ ih =>
    rw [List.flatMap_cons, ih]
    rfl
  | plain _ _ _ ih =>
    rw [List.flatMap_cons, ih]
    rfl

theorem Reads.tail {item : Item} {items : List Item} (h : Reads text (item :: items)) :
    Reads (items.flatMap Item.written) items := by
  cases h with
  | braced _ h | bare _ _ h | plain _ _ h => rwa [h.written_eq]

/-- From each of its items on, a text is read as the items from there on. -/
theorem Reads.of_suffix {items others : List Item} (h : Reads text items)
    (hothers : others <:+ items) : Reads (others.flatMap Item.written) others := by
  obtain ⟨front, rfl⟩ := hothers
  induction front generalizing text with
  | nil =>
    rw [List.nil_append] at h
    rwa [h.written_eq]
  | cons item front ih => exact ih h.tail

theorem Reads.isBareName_of_mem {items : List Item} (h : Reads text items) {name : List Char}
    (hmem : .bare name ∈ items) : IsBareName name := by
  induction h with
  | nil => exact absurd hmem List.not_mem_nil
  | braced _ _ ih => exact ih (by simpa using hmem)
  | bare hname _ _ ih =>
    rcases List.mem_cons.mp hmem with heq | hmem
    · obtain rfl := Item.bare.inj heq
      exact hname
    · exact ih hmem
  | plain _ _ _ ih => exact ih (by simpa using hmem)

/-! ## The first pass along a reading -/

theorem Reads.expandBraced_eq {items : List Item} (h : Reads text items) :
    expandBraced env text = items.flatMap (Item.filled env) := by
  induction h with
  | nil => exact expandBraced_nil
  | braced hname _ ih =>
    rw [expandBraced_reference hname, ih, List.flatMap_cons]
    rfl
  | @bare name rest items hname _ _ ih =>
    have hdollar : '$' = '$' → ¬OpensBraced (name ++ rest) :=
      fun _ => (hname.opensBare rest).not_opensBraced
    rw [expandBraced_cons hdollar, expandBraced_append_of_not_mem hname.dollar_not_mem, ih,
      List.flatMap_cons]
    rfl
  | plain hbraced _ _ ih =>
    rw [expandBraced_cons hbraced, ih, List.flatMap_cons]
    rfl

/-! ## The second pass at one item -/

theorem isNamePart_of_mem_extension {next : List Char} {c : Char} (h : c ∈ extension next) :
    isNamePart c = true :=
  List.mem_takeWhile_imp h

theorem dollar_not_mem_extension (next : List Char) : '$' ∉ extension next := by
  intro hmem
  exact absurd (isNamePart_of_mem_extension hmem) (by decide)

theorem extension_append (next : List Char) :
    extension next ++ next.dropWhile isNamePart = next :=
  List.takeWhile_append_dropWhile

theorem IsBareName.append_extension {name : List Char} (h : IsBareName name) (next : List Char) :
    IsBareName (name ++ extension next) := by
  obtain ⟨⟨c, hc, hstart⟩, hpart⟩ := h
  refine ⟨⟨c, List.mem_head?_append_of_mem_head? hc, hstart⟩, ?_⟩
  intro d hd
  rcases List.mem_append.mp hd with hd | hd
  · exact hpart d hd
  · exact isNamePart_of_mem_extension hd

theorem OpensBare.isBareName_extension {next : List Char} (h : OpensBare next) :
    IsBareName (extension next) := by
  obtain ⟨c, hc, hstart⟩ := h
  obtain ⟨tail, rfl⟩ := List.head?_eq_some_iff.mp hc
  refine ⟨⟨c, ?_, hstart⟩, fun _ => isNamePart_of_mem_extension⟩
  rw [extension, List.takeWhile_cons_of_pos (isNamePart_of_isNameStart hstart)]
  rfl

/-- An extension that no name stands before is passed over. -/
theorem expandBare_extension (next : List Char) :
    expandBare env next = extension next ++ expandBare env (next.dropWhile isNamePart) := by
  conv_lhs => rw [← extension_append next]
  exact expandBare_append_of_not_mem (dollar_not_mem_extension next) _

section DollarFree

variable (hvalues : DollarFree env)
include hvalues

theorem DollarFree.toList_ne_cons {name value : String} (hvalue : env.value? name = some value)
    (cs : List Char) : value.toList ≠ '$' :: cs := by
  intro heq
  refine hvalues name value hvalue ?_
  rw [heq]
  exact List.mem_cons_self

theorem DollarFree.substitute_eq_reference_iff {name : List Char} :
    substitute env name ('$' :: name) = '$' :: name ↔ env.value? (String.ofList name) = none := by
  rw [substitute]
  cases hvalue : env.value? (String.ofList name) with
  | none => simp
  | some value => simp [hvalues.toList_ne_cons hvalue name]

theorem DollarFree.substitute_append_iff {name more : List Char} (hmore : '$' ∉ more) :
    substitute env (name ++ more) ('$' :: (name ++ more)) =
        substitute env name ('$' :: name) ++ more ↔
      env.value? (String.ofList (name ++ more)) =
        (env.value? (String.ofList name)).map (· ++ String.ofList more) := by
  rw [substitute, substitute]
  cases hlonger : env.value? (String.ofList (name ++ more)) with
  | none =>
    cases hvalue : env.value? (String.ofList name) with
    | none => simp
    | some value =>
      -- only the longer name leaves its dollar sign
      have hne : '$' :: (name ++ more) ≠ value.toList ++ more := by
        intro heq
        have hmem : '$' ∈ value.toList ++ more := by
          rw [← heq]
          exact List.mem_cons_self
        exact (List.mem_append.mp hmem).elim (hvalues _ value hvalue) hmore
      simp [hne]
  | some found =>
    cases hvalue : env.value? (String.ofList name) with
    | none => simp [hvalues.toList_ne_cons hlonger (name ++ more)]
    | some value =>
      simp only [Option.map_some, Option.some.injEq]
      rw [← String.toList_inj, String.toList_append, String.toList_ofList]

theorem DollarFree.count_expandBare_le (text : List Char) :
    (expandBare env text).count '$' ≤ text.count '$' := by
  induction text using bare_induction with
  | nil => rw [expandBare_nil]
  | reference name rest hname hend ih =>
    rw [expandBare_reference hname hend, ← List.cons_append, List.count_append, List.count_append]
    refine Nat.add_le_add ?_ ih
    rw [substitute]
    cases hvalue : env.value? (String.ofList name) with
    | none => exact Nat.le_refl _
    | some value =>
      have hnone : value.toList.count '$' = 0 := List.count_eq_zero.mpr (hvalues _ value hvalue)
      rw [hnone]
      exact Nat.zero_le _
  | plain c cs hc ih =>
    rw [expandBare_cons hc, List.count_cons, List.count_cons]
    exact Nat.add_le_add_right ih _

/-- The second pass leaves just the texts alone in which no variable that is set is referred to: a
reference that is replaced takes a dollar sign with it. -/
theorem DollarFree.expandBare_eq_self_iff {text : List Char} :
    expandBare env text = text ↔
      ∀ inner, HoldsBare text inner → env.value? (String.ofList inner) = none := by
  refine ⟨?_, expandBare_of_unset⟩
  rintro h inner ⟨hname, front, back, rfl, hback⟩
  have hdollar : EndsName ('$' :: (inner ++ back)) := endsName_cons (by decide) _
  rw [expandBare_append hdollar, expandBare_reference hname hback, substitute] at h
  cases hvalue : env.value? (String.ofList inner) with
  | none => rfl
  | some value =>
    rw [hvalue] at h
    have hcount := congrArg (List.count '$') h
    have hnone : value.toList.count '$' = 0 := List.count_eq_zero.mpr (hvalues _ value hvalue)
    have hfront := hvalues.count_expandBare_le front
    have hbehind := hvalues.count_expandBare_le back
    simp only [List.count_append, List.count_cons_self, hnone] at hcount
    omega

theorem DollarFree.expandBare_braced_iff (name next : List Char) :
    expandBare env ((Item.braced name).written ++ next) =
        (Item.braced name).written ++ expandBare env next ↔
      ∀ inner, HoldsBare name inner → env.value? (String.ofList inner) = none := by
  have hbrace : EndsName ('{' :: (name ++ '}' :: next)) := endsName_cons (by decide) _
  have hopens : '$' = '$' → ¬OpensBare ('{' :: (name ++ '}' :: next)) :=
    fun _ => hbrace.not_opensBare
  have hplain : '{' = '$' → ¬OpensBare (name ++ '}' :: next) := fun heq => absurd heq (by decide)
  have hend : EndsName ('}' :: next) := endsName_cons (by decide) next
  have hclose : '}' = '$' → ¬OpensBare next := fun heq => absurd heq (by decide)
  rw [← hvalues.expandBare_eq_self_iff, Item.written, braced_append, braced_append,
    expandBare_cons hopens, expandBare_cons hplain, expandBare_append hend, expandBare_cons hclose,
    List.cons_inj_right, List.cons_inj_right, List.append_left_inj]

theorem DollarFree.expandBare_bare_iff {name : List Char} (hname : IsBareName name)
    (next : List Char) :
    expandBare env ((Item.bare name).written ++ next) =
        (Item.bare name).replaced env ++ expandBare env next ↔
      (Item.bare name).StandsBefore env next := by
  have hread : expandBare env ('$' :: (name ++ next)) =
      substitute env (name ++ extension next) ('$' :: (name ++ extension next)) ++
        expandBare env (next.dropWhile isNamePart) := by
    rw [← expandBare_reference (hname.append_extension next) (endsName_dropWhile next),
      List.append_assoc, extension_append]
  rw [Item.written, List.cons_append, hread, expandBare_extension next, ← List.append_assoc,
    List.append_left_inj]
  exact hvalues.substitute_append_iff (dollar_not_mem_extension next)

theorem DollarFree.expandBare_plain_iff (c : Char) (next : List Char) :
    expandBare env (c :: next) = c :: expandBare env next ↔
      (Item.plain c).StandsBefore env next := by
  by_cases hopens : c = '$' ∧ OpensBare next
  · obtain ⟨rfl, hopens⟩ := hopens
    have hread : expandBare env ('$' :: next) =
        substitute env (extension next) ('$' :: extension next) ++
          expandBare env (next.dropWhile isNamePart) := by
      rw [← expandBare_reference hopens.isBareName_extension (endsName_dropWhile next),
        extension_append]
    rw [hread, expandBare_extension next, ← List.cons_append, List.append_left_inj,
      hvalues.substitute_eq_reference_iff]
    exact ⟨fun hunset _ _ => hunset, fun h => h rfl hopens⟩
  · rw [not_and] at hopens
    exact iff_of_true (expandBare_cons hopens) fun hdollar hopen => absurd hopen (hopens hdollar)

/-- The second pass comes to an item of the text, and makes of it what was read if and only if the
item stands before what is behind it. -/
theorem DollarFree.expandBare_filled_append_iff {item : Item}
    (hitem : ∀ name, item = .bare name → IsBareName name) (next : List Char) :
    expandBare env (item.filled env ++ next) = item.replaced env ++ expandBare env next ↔
      item.StandsBefore env next := by
  cases item with
  | braced name =>
    rw [Item.filled, Item.replaced, Item.StandsBefore, substitute]
    cases hvalue : env.value? (String.ofList name) with
    | none => exact (hvalues.expandBare_braced_iff name next).trans ⟨fun h _ => h, fun h => h rfl⟩
    | some value =>
      refine iff_of_true (expandBare_append_of_not_mem (hvalues _ value hvalue) next) ?_
      intro hnone
      exact absurd hnone (Option.some_ne_none value)
  | bare name => exact hvalues.expandBare_bare_iff (hitem name rfl) next
  | plain c => exact hvalues.expandBare_plain_iff c next

/-- The second pass replaces each reference by itself, in the items and from each item on, if and
only if the items stand apart. -/
theorem DollarFree.standApart_iff {items : List Item}
    (hnames : ∀ name, .bare name ∈ items → IsBareName name) :
    StandApart env items ↔ ∀ others, others <:+ items →
      expandBare env (others.flatMap (Item.filled env)) =
        others.flatMap (Item.replaced env) := by
  -- behind an item the second pass has come to what was read, and so the step above applies
  induction items with
  | nil =>
    refine iff_of_true trivial ?_
    intro others hothers
    rw [List.suffix_nil.mp hothers]
    exact expandBare_nil
  | cons item items ih =>
    have hitem : ∀ name, item = .bare name → IsBareName name := by
      rintro name rfl
      exact hnames name List.mem_cons_self
    have hstep := hvalues.expandBare_filled_append_iff hitem (items.flatMap (Item.filled env))
    have hrest := ih fun name hmem => hnames name (List.mem_cons_of_mem item hmem)
    rw [StandApart, ← hstep, hrest]
    constructor
    · rintro ⟨hfirst, hall⟩ others hothers
      rcases List.suffix_cons_iff.mp hothers with rfl | hothers
      · rw [List.flatMap_cons, List.flatMap_cons, hfirst, hall items List.suffix_rfl]
      · exact hall others hothers
    · intro hall
      have hbehind := hall items (List.suffix_cons item items)
      have hfirst := hall (item :: items) List.suffix_rfl
      rw [List.flatMap_cons, List.flatMap_cons, ← hbehind] at hfirst
      refine ⟨hfirst, fun others hothers => hall others ?_⟩
      exact hothers.trans (List.suffix_cons item items)

end DollarFree

/-! ## Expansion along a reading -/

/-- Every text has one reading. Expansion replaces the references with braces that it finds, and
goes over the result once more for references without braces. If no value holds a dollar sign and
the items of the reading stand apart, this comes to replacing every reference of the reading that is
to a variable that is set, and to nothing else. If they do not stand apart, it does not come to this
from some item of the text on. -/
theorem references_apart_are_replaced_one_by_one (env : Environment) (text : List Char) :
    ∃ items, Reads text items ∧ (∀ others, Reads text others → others = items) ∧
      items.flatMap Item.written = text ∧
      expand env text = expandBare env (items.flatMap (Item.filled env)) ∧
      (DollarFree env → StandApart env items →
        expand env text = items.flatMap (Item.replaced env)) ∧
      (DollarFree env → (StandApart env items ↔ ∀ others, others <:+ items →
        expand env (others.flatMap Item.written) = others.flatMap (Item.replaced env))) := by
  obtain ⟨items, hreads⟩ := exists_reads text
  have hfilled : expand env text = expandBare env (items.flatMap (Item.filled env)) := by
    rw [expand, hreads.expandBraced_eq]
  have hnames : ∀ name, .bare name ∈ items → IsBareName name := fun _ => hreads.isBareName_of_mem
  refine ⟨items, hreads, ?_, hreads.written_eq, hfilled, ?_, ?_⟩
  · intro others hothers
    exact hothers.eq hreads
  · intro hvalues hapart
    rw [hfilled]
    exact (hvalues.standApart_iff hnames).mp hapart items List.suffix_rfl
  · intro hvalues
    rw [hvalues.standApart_iff hnames]
    refine forall₂_congr fun others hothers => ?_
    rw [expand, (hreads.of_suffix hothers).expandBraced_eq]

/-- A value that starts with a slash ends the name before it, and braces stay that enclose only what
is not set. A name that a value goes on with, and a lone dollar sign before a value, do no harm as
long as no variable is set to which they come to refer. -/
theorem path_behind_bare_name_is_replaced :
    let env : Environment := [("A", "1"), ("N", "n"), ("P", "/x")]
    let text := "$U${N}$A${P}$5$${N}${x$Y}".toList
    let items := [.bare ['U'], .braced ['N'], .bare ['A'], .braced ['P'], .plain '$', .plain '5',
      .plain '$', .braced ['N'], .braced ['x', '$', 'Y']]
    DollarFree env ∧ Reads text items ∧ StandApart env items ∧
      expand env text = "$Un1/x$5$n${x$Y}".toList := by
  intro env text items
  have hvalues : DollarFree env := dollarFree_of_forall_mem (by decide)
  have hreads : Reads text items := by
    have hlast := @Reads.braced ['x', '$', 'Y'] _ _ (by decide) .nil
    have hletter := @Reads.braced ['N'] _ _ (by decide) hlast
    have hlone := @Reads.plain '$' _ _ (by decide) (by decide) hletter
    have hdigit := @Reads.plain '5' _ _ (by decide) (by decide) hlone
    have hdollar := @Reads.plain '$' _ _ (by decide) (by decide) hdigit
    have hpath := @Reads.braced ['P'] _ _ (by decide) hdollar
    have hbare := @Reads.bare ['A'] _ _ (by decide) (by decide) hpath
    have hbraced := @Reads.braced ['N'] _ _ (by decide) hbare
    have hfirst := @Reads.bare ['U'] _ _ (by decide) (by decide) hbraced
    have htext : text = ['$', 'U', '$', '{', 'N', '}', '$', 'A', '$', '{', 'P', '}', '$', '5', '$',
      '$', '{', 'N', '}', '$', '{', 'x', '$', 'Y', '}'] := by decide
    rw [htext]
    exact hfirst
  have hapart : StandApart env items := by decide
  obtain ⟨others, -, hunique, -, -, hreplaced, -⟩ :=
    references_apart_are_replaced_one_by_one env text
  obtain rfl : items = others := hunique items hreads
  refine ⟨hvalues, hreads, hapart, ?_⟩
  rw [hreplaced hvalues hapart]
  decide

/-- Two misreadings may make up for one another, so that the text comes out right though its items
do not stand apart. -/
example :
    let env : Environment :=
      [("A", ""), ("B", "b"), ("Ab", "bc"), ("C", "c"), ("D", "d"), ("Cd", "d")]
    let items := [.bare ['A'], .braced ['B'], .bare ['C'], .braced ['D']]
    ¬StandApart env items ∧
      expand env (items.flatMap Item.written) = items.flatMap (Item.replaced env) := by
  decide +kernel

/-- Inside braces that stay a reference is replaced, a value goes on with the bare name before it,
and a lone dollar sign makes a reference of the value behind it. -/
theorem references_side_by_side_are_read_together :
    let env : Environment := [("A", "1"), ("B", "A")]
    let text := "${x$A} $A${B} $${B}".toList
    DollarFree env ∧ expand env text = "${x1} $AA 1".toList ∧
      ∃ items, Reads text items ∧ items.flatMap (Item.replaced env) = "${x$A} 1A $A".toList := by
  intro env text
  have hvalues : DollarFree env := dollarFree_of_forall_mem (by decide)
  refine ⟨hvalues, by decide +kernel, [.braced ['x', '$', 'A'], .plain ' ', .bare ['A'],
    .braced ['B'], .plain ' ', .plain '$', .braced ['B']], ?_, by decide⟩
  have hlast := @Reads.braced ['B'] _ _ (by decide) .nil
  have hdollar := @Reads.plain '$' _ _ (by decide) (by decide) hlast
  have hspace := @Reads.plain ' ' _ _ (by decide) (by decide) hdollar
  have hbraced := @Reads.braced ['B'] _ _ (by decide) hspace
  have hbare := @Reads.bare ['A'] _ _ (by decide) (by decide) hbraced
  have hgap := @Reads.plain ' ' _ _ (by decide) (by decide) hbare
  have hfirst := @Reads.braced ['x', '$', 'A'] _ _ (by decide) hgap
  have htext : text = ['$', '{', 'x', '$', 'A', '}', ' ', '$', 'A', '$', '{', 'B', '}', ' ', '$',
    '$', '{', 'B', '}'] := by decide
  rw [htext]
  exact hfirst

end TreeShell.Expansion
