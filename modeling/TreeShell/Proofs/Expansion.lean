import Mathlib.Data.List.TakeWhile
import TreeShell.Expansion

/-!
# Expanded texts

Each of the two passes of expansion goes along the text and comes to a reference or to a character
that it leaves as it is. This module says when it comes to which: a dollar sign opens a braced
reference when a non-empty text and a closing brace stand behind `{`, and a bare one when a letter
or an underscore stands behind it. The laws of the passes are proved by induction over what a pass
comes to. A pass goes through a text without a dollar sign and changes nothing in it.
-/

namespace TreeShell.Expansion

variable {env : Environment}

/-! ## Names -/

/-- A name that braces can enclose. -/
def IsBracedName (name : List Char) : Prop := name ≠ [] ∧ '}' ∉ name

/-- A name that can stand without braces. -/
def IsBareName (name : List Char) : Prop :=
  (∃ c ∈ name.head?, isNameStart c = true) ∧ ∀ c ∈ name, isNamePart c = true

/-- A bare name before this text does not go on in it. -/
def EndsName (cs : List Char) : Prop := ∀ c ∈ cs.head?, isNamePart c = false

/-- A dollar sign before this text opens a braced reference. -/
def OpensBraced (cs : List Char) : Prop :=
  ∃ name rest, IsBracedName name ∧ cs = '{' :: (name ++ '}' :: rest)

/-- A dollar sign before this text opens a bare reference. -/
def OpensBare (cs : List Char) : Prop := ∃ c ∈ cs.head?, isNameStart c = true

instance (name : List Char) : Decidable (IsBracedName name) :=
  inferInstanceAs (Decidable (_ ∧ _))

theorem isBareName_iff {name : List Char} :
    IsBareName name ↔ name.head?.any isNameStart = true ∧ name.all isNamePart = true := by
  simp only [IsBareName, Option.any_eq_true, List.all_eq_true, Option.mem_def]

theorem endsName_iff {cs : List Char} :
    EndsName cs ↔ cs.head?.all (fun c => !isNamePart c) = true := by
  simp [EndsName, Option.all_eq_true]

theorem opensBare_iff {cs : List Char} : OpensBare cs ↔ cs.head?.any isNameStart = true := by
  simp only [OpensBare, Option.any_eq_true, Option.mem_def]

instance (name : List Char) : Decidable (IsBareName name) :=
  decidable_of_iff _ isBareName_iff.symm

instance (cs : List Char) : Decidable (EndsName cs) := decidable_of_iff _ endsName_iff.symm

instance (cs : List Char) : Decidable (OpensBare cs) := decidable_of_iff _ opensBare_iff.symm

theorem isNamePart_of_isNameStart {c : Char} (h : isNameStart c = true) : isNamePart c = true := by
  unfold isNameStart at h
  unfold isNamePart Char.isAlphanum
  rw [Bool.or_eq_true] at h ⊢
  rcases h with h | h
  · left
    rw [h, Bool.true_or]
  · exact Or.inr h

theorem endsName_cons {c : Char} (h : isNamePart c = false) (cs : List Char) :
    EndsName (c :: cs) := by
  intro d hd
  obtain rfl : c = d := Option.some.inj hd
  exact h

theorem endsName_dropWhile (cs : List Char) : EndsName (cs.dropWhile isNamePart) := by
  intro c hc
  have hhead := List.head?_dropWhile_not isNamePart cs
  rw [hc] at hhead
  simpa using hhead

theorem IsBareName.dollar_not_mem {name : List Char} (h : IsBareName name) : '$' ∉ name := by
  intro hmem
  have hpart := h.2 '$' hmem
  exact absurd hpart (by decide)

theorem IsBareName.opensBare {name : List Char} (h : IsBareName name) (rest : List Char) :
    OpensBare (name ++ rest) := by
  obtain ⟨⟨c, hc, hstart⟩, -⟩ := h
  obtain ⟨tail, rfl⟩ := List.head?_eq_some_iff.mp hc
  exact ⟨c, rfl, hstart⟩

/-- No dollar sign opens references of both forms. -/
theorem OpensBare.not_opensBraced {cs : List Char} (h : OpensBare cs) : ¬OpensBraced cs := by
  rintro ⟨name, rest, -, rfl⟩
  obtain ⟨c, hc, hstart⟩ := h
  obtain rfl : '{' = c := Option.some.inj hc
  exact absurd hstart (by decide)

theorem EndsName.not_opensBare {cs : List Char} (h : EndsName cs) : ¬OpensBare cs := by
  rintro ⟨c, hc, hstart⟩
  have hpart := isNamePart_of_isNameStart hstart
  rw [h c hc] at hpart
  exact Bool.false_ne_true hpart

/-- What is split off in front of a closing brace is a name, and nothing is lost. -/
theorem bracedName_eq_some_iff {cs name rest : List Char} :
    bracedName cs = some (name, rest) ↔ IsBracedName name ∧ cs = name ++ '}' :: rest := by
  constructor
  · intro h
    unfold bracedName at h
    split at h
    · next c tail brace behind htake hdrop =>
      obtain ⟨rfl, rfl⟩ := Prod.mk.inj (Option.some.inj h)
      have hbrace : brace = '}' := by
        have hhead := List.head?_dropWhile_not (· != '}') cs
        rw [hdrop] at hhead
        simpa using hhead
      have hcs := List.takeWhile_append_dropWhile (p := (· != '}')) (l := cs)
      rw [htake, hdrop, hbrace] at hcs
      refine ⟨⟨List.cons_ne_nil c tail, ?_⟩, hcs.symm⟩
      intro hmem
      rw [← htake] at hmem
      have hne := List.mem_takeWhile_imp hmem
      exact absurd hne (by decide)
    · exact absurd h (by simp)
  · rintro ⟨⟨hne, hmem⟩, rfl⟩
    obtain ⟨c, tail, rfl⟩ := List.exists_cons_of_ne_nil hne
    have hall : ∀ d ∈ c :: tail, (d != '}') = true := by
      intro d hd
      exact bne_iff_ne.mpr (ne_of_mem_of_not_mem hd hmem)
    have htake : (c :: tail ++ '}' :: rest).takeWhile (· != '}') = c :: tail := by
      rw [List.takeWhile_append_of_pos hall, List.takeWhile_cons_of_neg (by decide),
        List.append_nil]
    have hdrop : (c :: tail ++ '}' :: rest).dropWhile (· != '}') = '}' :: rest := by
      rw [List.dropWhile_append_of_pos hall, List.dropWhile_cons_of_neg (by decide)]
    rw [bracedName, htake, hdrop]

/-- What is split off as a bare name is as long as it can be, and nothing is lost. -/
theorem bareName_eq_some_iff {cs name rest : List Char} :
    bareName cs = some (name, rest) ↔ IsBareName name ∧ EndsName rest ∧ cs = name ++ rest := by
  constructor
  · intro h
    unfold bareName at h
    split at h
    · next c tail =>
      split at h
      · next hstart =>
        obtain ⟨rfl, rfl⟩ := Prod.mk.inj (Option.some.inj h)
        refine ⟨⟨⟨c, ?_, hstart⟩, ?_⟩, ?_, List.takeWhile_append_dropWhile.symm⟩
        · rw [List.takeWhile_cons_of_pos (isNamePart_of_isNameStart hstart)]
          rfl
        · intro d hd
          exact List.mem_takeWhile_imp hd
        · exact endsName_dropWhile (c :: tail)
      · exact absurd h (by simp)
    · exact absurd h (by simp)
  · rintro ⟨⟨⟨c, hc, hstart⟩, hname⟩, hrest, rfl⟩
    have htake : (name ++ rest).takeWhile isNamePart = name := by
      rw [List.takeWhile_append_of_pos hname]
      cases rest with
      | nil => rw [List.takeWhile_nil, List.append_nil]
      | cons d rest =>
        rw [List.takeWhile_cons_of_neg (by simp [hrest d rfl]), List.append_nil]
    have hdrop : (name ++ rest).dropWhile isNamePart = rest := by
      have hsplit := List.takeWhile_append_dropWhile (p := isNamePart) (l := name ++ rest)
      rw [htake] at hsplit
      exact List.append_cancel_left hsplit
    obtain ⟨tail, rfl⟩ := List.head?_eq_some_iff.mp hc
    rw [List.cons_append] at htake hdrop ⊢
    rw [bareName, if_pos hstart, htake, hdrop]

theorem OpensBare.exists_name {cs : List Char} (h : OpensBare cs) :
    ∃ name rest, IsBareName name ∧ EndsName rest ∧ cs = name ++ rest := by
  obtain ⟨c, hc, hstart⟩ := h
  obtain ⟨tail, rfl⟩ := List.head?_eq_some_iff.mp hc
  have hsplit : bareName (c :: tail) =
      some ((c :: tail).takeWhile isNamePart, (c :: tail).dropWhile isNamePart) := by
    rw [bareName, if_pos hstart]
  exact ⟨_, _, bareName_eq_some_iff.mp hsplit⟩

theorem opensBraced_iff {cs : List Char} :
    OpensBraced cs ↔ cs.head? = some '{' ∧ (bracedName cs.tail).isSome = true := by
  constructor
  · rintro ⟨name, rest, hname, rfl⟩
    rw [List.tail_cons, bracedName_eq_some_iff.mpr ⟨hname, rfl⟩]
    exact ⟨rfl, rfl⟩
  · rintro ⟨hhead, hsome⟩
    obtain ⟨behind, rfl⟩ := List.head?_eq_some_iff.mp hhead
    obtain ⟨⟨name, rest⟩, hname⟩ := Option.isSome_iff_exists.mp hsome
    obtain ⟨hisName, rfl⟩ := bracedName_eq_some_iff.mp hname
    exact ⟨name, rest, hisName, rfl⟩

instance (cs : List Char) : Decidable (OpensBraced cs) := decidable_of_iff _ opensBraced_iff.symm

/-! ## What a pass comes to -/

/-- A braced reference, apart from the text behind it. -/
theorem braced_append (name rest : List Char) :
    '$' :: '{' :: (name ++ ['}']) ++ rest = '$' :: '{' :: (name ++ '}' :: rest) := by
  simp

theorem expandBraced_nil : expandBraced env [] = [] := by rw [expandBraced]

/-- The first pass comes to a reference. -/
theorem expandBraced_reference {name : List Char} (h : IsBracedName name) (rest : List Char) :
    expandBraced env ('$' :: '{' :: (name ++ '}' :: rest)) =
      substitute env name ('$' :: '{' :: (name ++ ['}'])) ++ expandBraced env rest := by
  have hname := bracedName_eq_some_iff.mpr ⟨h, Eq.refl (name ++ '}' :: rest)⟩
  rw [expandBraced]
  split
  · next found behind hfound =>
    obtain ⟨rfl, rfl⟩ := Prod.mk.inj (Option.some.inj (hname.symm.trans hfound))
    rfl
  · next hnone => exact absurd (hname.symm.trans hnone) (by simp)

/-- The first pass comes to a character that opens no reference. -/
theorem expandBraced_cons {c : Char} {cs : List Char} (h : c = '$' → ¬OpensBraced cs) :
    expandBraced env (c :: cs) = c :: expandBraced env cs := by
  by_cases hopen : c = '$' ∧ cs.head? = some '{'
  · -- the braces that are opened here enclose no name
    obtain ⟨rfl, hhead⟩ := hopen
    obtain ⟨behind, rfl⟩ := List.head?_eq_some_iff.mp hhead
    rw [expandBraced]
    split
    · next name rest hname =>
      obtain ⟨hisName, rfl⟩ := bracedName_eq_some_iff.mp hname
      exact absurd ⟨name, rest, hisName, rfl⟩ (h rfl)
    · rfl
  · rw [expandBraced]
    rintro behind rfl rfl
    exact hopen ⟨rfl, rfl⟩

theorem expandBare_nil : expandBare env [] = [] := by rw [expandBare]

/-- The second pass comes to a reference. -/
theorem expandBare_reference {name rest : List Char} (h : IsBareName name) (hrest : EndsName rest) :
    expandBare env ('$' :: (name ++ rest)) =
      substitute env name ('$' :: name) ++ expandBare env rest := by
  have hname := bareName_eq_some_iff.mpr ⟨h, hrest, Eq.refl (name ++ rest)⟩
  rw [expandBare]
  split
  · next found behind hfound =>
    obtain ⟨rfl, rfl⟩ := Prod.mk.inj (Option.some.inj (hname.symm.trans hfound))
    rfl
  · next hnone => exact absurd (hname.symm.trans hnone) (by simp)

/-- The second pass comes to a character that opens no reference. -/
theorem expandBare_cons {c : Char} {cs : List Char} (h : c = '$' → ¬OpensBare cs) :
    expandBare env (c :: cs) = c :: expandBare env cs := by
  by_cases hdollar : c = '$'
  · subst hdollar
    rw [expandBare]
    split
    · next name rest hname =>
      obtain ⟨hisName, -, rfl⟩ := bareName_eq_some_iff.mp hname
      exact absurd (hisName.opensBare rest) (h rfl)
    · rfl
  · rw [expandBare]
    intro heq
    exact hdollar heq

/-! ## Induction over what a pass comes to -/

/-- A text is empty, or starts with a braced reference, or with a character that opens none. -/
@[elab_as_elim]
theorem braced_induction {motive : List Char → Prop} (nil : motive [])
    (reference : ∀ name rest, IsBracedName name → motive rest →
      motive ('$' :: '{' :: (name ++ '}' :: rest)))
    (plain : ∀ c cs, (c = '$' → ¬OpensBraced cs) → motive cs → motive (c :: cs))
    (text : List Char) : motive text := by
  fun_induction expandBraced ([] : Environment) text with
  | case1 => exact nil
  | case2 cs name rest hname ih =>
    obtain ⟨hisName, rfl⟩ := bracedName_eq_some_iff.mp hname
    exact reference name rest hisName ih
  | case3 cs hnone ih =>
    refine plain '$' ('{' :: cs) ?_ ih
    rintro - ⟨name, rest, hisName, heq⟩
    have hname := bracedName_eq_some_iff.mpr ⟨hisName, List.tail_eq_of_cons_eq heq⟩
    exact absurd (hname.symm.trans hnone) (by simp)
  | case4 c cs hother ih =>
    refine plain c cs ?_ ih
    rintro rfl ⟨name, rest, -, rfl⟩
    exact hother _ rfl rfl

/-- A text is empty, or starts with a bare reference, or with a character that opens none. -/
@[elab_as_elim]
theorem bare_induction {motive : List Char → Prop} (nil : motive [])
    (reference : ∀ name rest, IsBareName name → EndsName rest → motive rest →
      motive ('$' :: (name ++ rest)))
    (plain : ∀ c cs, (c = '$' → ¬OpensBare cs) → motive cs → motive (c :: cs))
    (text : List Char) : motive text := by
  fun_induction expandBare ([] : Environment) text with
  | case1 => exact nil
  | case2 cs name rest hname ih =>
    obtain ⟨hisName, hrest, rfl⟩ := bareName_eq_some_iff.mp hname
    exact reference name rest hisName hrest ih
  | case3 cs hnone ih =>
    refine plain '$' cs ?_ ih
    rintro - hopens
    obtain ⟨name, rest, hisName, hrest, rfl⟩ := hopens.exists_name
    have hname := bareName_eq_some_iff.mpr ⟨hisName, hrest, Eq.refl (name ++ rest)⟩
    exact absurd (hname.symm.trans hnone) (by simp)
  | case4 c cs hother ih =>
    refine plain c cs ?_ ih
    intro hdollar
    exact absurd hdollar hother

/-! ## Texts without a dollar sign -/

theorem expandBraced_append_of_not_mem {front : List Char} (h : '$' ∉ front) (back : List Char) :
    expandBraced env (front ++ back) = front ++ expandBraced env back := by
  induction front with
  | nil => rfl
  | cons c front ih =>
    rw [List.mem_cons, not_or] at h
    have hc : c = '$' → ¬OpensBraced (front ++ back) := fun hdollar => absurd hdollar.symm h.1
    rw [List.cons_append, expandBraced_cons hc, ih h.2, List.cons_append]

theorem expandBare_append_of_not_mem {front : List Char} (h : '$' ∉ front) (back : List Char) :
    expandBare env (front ++ back) = front ++ expandBare env back := by
  induction front with
  | nil => rfl
  | cons c front ih =>
    rw [List.mem_cons, not_or] at h
    have hc : c = '$' → ¬OpensBare (front ++ back) := fun hdollar => absurd hdollar.symm h.1
    rw [List.cons_append, expandBare_cons hc, ih h.2, List.cons_append]

theorem expand_of_not_mem {text : List Char} (h : '$' ∉ text) : expand env text = text := by
  have hbraced : expandBraced env (text ++ []) = text ++ expandBraced env [] :=
    expandBraced_append_of_not_mem h []
  have hbare : expandBare env (text ++ []) = text ++ expandBare env [] :=
    expandBare_append_of_not_mem h []
  rw [expandBraced_nil, List.append_nil] at hbraced
  rw [expandBare_nil, List.append_nil] at hbare
  rw [expand, hbraced, hbare]

end TreeShell.Expansion
