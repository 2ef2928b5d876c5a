import Mathlib.Data.List.Infix
import TreeShell.Proofs.Expansion
import TreeShell.Words

/-!
# Where expansion acts

Expansion touches the references to variables that are set and nothing else. A text that refers to
none of them stays as it is, so that the words of a line are the words it has without variables,
each expanded by itself. Nor does expansion look beyond a place where no reference can go on: a text
whose braces are all closed, and a text that starts with none of the characters that a reference is
made of, are expanded apart.
-/

namespace TreeShell

namespace Expansion

variable {env : Environment}

/-! ## Texts without a reference to a variable that is set -/

/-- The text holds `name` in braces behind a dollar sign. -/
def HoldsBraced (text name : List Char) : Prop :=
  IsBracedName name ∧ '$' :: '{' :: (name ++ ['}']) <:+: text

/-- The text holds `name` behind a dollar sign, as long as a name can be there. -/
def HoldsBare (text name : List Char) : Prop :=
  IsBareName name ∧ ∃ front back, text = front ++ '$' :: (name ++ back) ∧ EndsName back

/-- No variable is set to which the text refers. -/
def RefersToUnset (env : Environment) (text : List Char) : Prop :=
  ∀ name, HoldsBraced text name ∨ HoldsBare text name → env.value? (String.ofList name) = none

instance (text name : List Char) : Decidable (HoldsBraced text name) :=
  inferInstanceAs (Decidable (_ ∧ _))

/-- Every occurrence is the start of a tail of the text. -/
theorem holdsBare_iff {text name : List Char} :
    HoldsBare text name ↔ IsBareName name ∧
      ∃ tail ∈ text.tails, '$' :: name <+: tail ∧ EndsName (tail.drop ('$' :: name).length) := by
  refine and_congr_right fun _ => ⟨?_, ?_⟩
  · rintro ⟨front, back, rfl, hback⟩
    refine ⟨'$' :: name ++ back, ?_, List.prefix_append _ back, ?_⟩
    · exact (List.mem_tails _ _).mpr (List.suffix_append front _)
    · rwa [List.drop_left]
  · rintro ⟨tail, htail, ⟨back, rfl⟩, hback⟩
    obtain ⟨front, rfl⟩ := (List.mem_tails _ _).mp htail
    rw [List.drop_left] at hback
    exact ⟨front, back, rfl, hback⟩

instance (text name : List Char) : Decidable (HoldsBare text name) :=
  decidable_of_iff _ holdsBare_iff.symm

/-- Only names that are set have to be looked at. -/
theorem forall_value?_eq_none_iff {P : List Char → Prop} :
    (∀ name, P name → env.value? (String.ofList name) = none) ↔
      ∀ entry ∈ env, ¬P entry.1.toList := by
  constructor
  · intro h entry hentry hname
    have hunset := h _ hname
    rw [String.ofList_toList, Environment.value?, List.lookup_eq_none_iff] at hunset
    exact bne_iff_ne.mp (hunset entry hentry) rfl
  · intro h name hname
    rw [Environment.value?, List.lookup_eq_none_iff]
    intro entry hentry
    rw [bne_iff_ne]
    intro heq
    refine h entry hentry ?_
    rwa [← heq, String.toList_ofList]

theorem refersToUnset_iff {text : List Char} :
    RefersToUnset env text ↔
      ∀ entry ∈ env, ¬(HoldsBraced text entry.1.toList ∨ HoldsBare text entry.1.toList) :=
  forall_value?_eq_none_iff (P := fun name => HoldsBraced text name ∨ HoldsBare text name)

instance (env : Environment) (text : List Char) : Decidable (RefersToUnset env text) :=
  decidable_of_iff _ refersToUnset_iff.symm

theorem HoldsBraced.append {text name : List Char} (h : HoldsBraced text name)
    (front : List Char) : HoldsBraced (front ++ text) name := by
  obtain ⟨hname, hinfix⟩ := h
  exact ⟨hname, hinfix.trans (List.suffix_append front text).isInfix⟩

theorem HoldsBare.append {text name : List Char} (h : HoldsBare text name) (front : List Char) :
    HoldsBare (front ++ text) name := by
  obtain ⟨hname, before, back, rfl, hback⟩ := h
  exact ⟨hname, front ++ before, back, by rw [List.append_assoc], hback⟩

theorem expandBraced_of_unset {text : List Char}
    (h : ∀ name, HoldsBraced text name → env.value? (String.ofList name) = none) :
    expandBraced env text = text := by
  induction text using braced_induction with
  | nil => exact expandBraced_nil
  | reference name rest hname ih =>
    rw [← braced_append] at h
    have hunset := h name ⟨hname, (List.prefix_append _ rest).isInfix⟩
    have hrest : expandBraced env rest = rest := ih fun other hother => h other (hother.append _)
    rw [expandBraced_reference hname, substitute, hunset, hrest]
    exact braced_append name rest
  | plain c cs hc ih =>
    have hcs : expandBraced env cs = cs := ih fun other hother => h other (hother.append [c])
    rw [expandBraced_cons hc, hcs]

theorem expandBare_of_unset {text : List Char}
    (h : ∀ name, HoldsBare text name → env.value? (String.ofList name) = none) :
    expandBare env text = text := by
  induction text using bare_induction with
  | nil => exact expandBare_nil
  | reference name rest hname hend ih =>
    have hunset := h name ⟨hname, [], rest, rfl, hend⟩
    have hrest : expandBare env rest = rest :=
      ih fun other hother => h other (hother.append ('$' :: name))
    rw [expandBare_reference hname hend, substitute, hunset, hrest, List.cons_append]
  | plain c cs hc ih =>
    have hcs : expandBare env cs = cs := ih fun other hother => h other (hother.append [c])
    rw [expandBare_cons hc, hcs]

theorem expand_of_refersToUnset {text : List Char} (h : RefersToUnset env text) :
    expand env text = text := by
  have hbraced : expandBraced env text = text :=
    expandBraced_of_unset fun name hname => h name (Or.inl hname)
  have hbare : expandBare env text = text :=
    expandBare_of_unset fun name hname => h name (Or.inr hname)
  rw [expand, hbraced, hbare]

theorem expand_nil_env (text : List Char) : expand [] text = text :=
  expand_of_refersToUnset fun _ _ => rfl

/-! ## Texts that are expanded apart -/

/-- Every brace that a dollar sign opens in this text is closed in it. -/
def ClosesBraces (text : List Char) : Prop :=
  ∀ front back, text = front ++ '$' :: '{' :: back → '}' ∈ back

theorem closesBraces_iff {text : List Char} :
    ClosesBraces text ↔ ∀ tail ∈ text.tails, ['$', '{'] <+: tail → '}' ∈ tail.drop 2 := by
  constructor
  · rintro h tail htail ⟨back, rfl⟩
    obtain ⟨front, rfl⟩ := (List.mem_tails _ _).mp htail
    exact h front back rfl
  · rintro h front back rfl
    exact h ('$' :: '{' :: back) ((List.mem_tails _ _).mpr (List.suffix_append front _))
      (List.prefix_append ['$', '{'] back)

instance (text : List Char) : Decidable (ClosesBraces text) :=
  decidable_of_iff _ closesBraces_iff.symm

theorem ClosesBraces.of_append {front text : List Char} (h : ClosesBraces (front ++ text)) :
    ClosesBraces text := by
  intro before back htext
  refine h (front ++ before) back ?_
  rw [htext, List.append_assoc]

theorem OpensBraced.of_append {cs back : List Char} (h : OpensBraced (cs ++ back))
    (hbrace : '}' ∈ cs) : OpensBraced cs := by
  obtain ⟨name, rest, hname, heq⟩ := h
  have hnot : '}' ∉ '{' :: name := by
    rw [List.mem_cons, not_or]
    exact ⟨by decide, hname.2⟩
  rw [← List.cons_append, List.append_eq_append_iff] at heq
  rcases heq with ⟨tail, hfront, -⟩ | ⟨tail, rfl, htail⟩
  · rw [hfront] at hnot
    exact absurd (List.mem_append_left tail hbrace) hnot
  · cases tail with
    | nil =>
      rw [List.append_nil] at hbrace
      exact absurd hbrace hnot
    | cons d tail =>
      obtain ⟨rfl, -⟩ := List.cons.inj htail
      exact ⟨name, tail, hname, rfl⟩

theorem expandBraced_append {a b : List Char} (ha : ClosesBraces a)
    (hb : ∀ c ∈ b.head?, c ≠ '{') :
    expandBraced env (a ++ b) = expandBraced env a ++ expandBraced env b := by
  induction a using braced_induction with
  | nil => rw [List.nil_append, expandBraced_nil, List.nil_append]
  | reference name rest hname ih =>
    have hrest : ClosesBraces rest := by
      rw [← braced_append] at ha
      exact ha.of_append
    rw [← braced_append, List.append_assoc, braced_append, braced_append,
      expandBraced_reference hname, expandBraced_reference hname, ih hrest, List.append_assoc]
  | plain c cs hc ih =>
    have hcs : ClosesBraces cs := by
      rw [← List.singleton_append] at ha
      exact ha.of_append
    have hcb : c = '$' → ¬OpensBraced (cs ++ b) := by
      rintro rfl hopens
      -- the brace is opened within `a`, and so it is closed there
      refine hc rfl (hopens.of_append ?_)
      obtain ⟨name, rest, -, heq⟩ := hopens
      cases cs with
      | nil =>
        rw [List.nil_append] at heq
        exact absurd rfl (hb '{' (by rw [heq]; rfl))
      | cons d cs =>
        obtain ⟨rfl, -⟩ := List.cons.inj heq
        have hbrace : '}' ∈ cs := ha [] cs rfl
        exact List.mem_cons_of_mem '{' hbrace
    rw [List.cons_append, expandBraced_cons hcb, expandBraced_cons hc, ih hcs, List.cons_append]

theorem EndsName.append {rest b : List Char} (hrest : EndsName rest) (hb : EndsName b) :
    EndsName (rest ++ b) := by
  cases rest with
  | nil => exact hb
  | cons c rest => exact hrest

theorem expandBare_append {b : List Char} (hb : EndsName b) (a : List Char) :
    expandBare env (a ++ b) = expandBare env a ++ expandBare env b := by
  induction a using bare_induction with
  | nil => rw [List.nil_append, expandBare_nil, List.nil_append]
  | reference name rest hname hend ih =>
    rw [List.cons_append, List.append_assoc, expandBare_reference hname (hend.append hb), ih,
      expandBare_reference hname hend, List.append_assoc]
  | plain c cs hc ih =>
    have hcb : c = '$' → ¬OpensBare (cs ++ b) := by
      intro hdollar
      cases cs with
      | nil => exact hb.not_opensBare
      | cons d cs => exact hc hdollar
    rw [List.cons_append, expandBare_cons hcb, ih, expandBare_cons hc, List.cons_append]

theorem head?_expandBraced {text : List Char} (h : ∀ c ∈ text.head?, c ≠ '$') :
    (expandBraced env text).head? = text.head? := by
  cases text with
  | nil => rw [expandBraced_nil]
  | cons c cs =>
    have hc : c = '$' → ¬OpensBraced cs := fun hdollar => absurd hdollar (h c rfl)
    rw [expandBraced_cons hc, List.head?_cons, List.head?_cons]

/-- A text whose braces are closed is expanded apart from the text behind it, when that starts with
no letter, digit or underscore, with which a bare name might go on, and with no dollar sign or
opening brace. Values may hold any of these. -/
theorem closed_text_is_expanded_apart {a b : List Char} (ha : ClosesBraces a)
    (hb : ∀ c ∈ b.head?, c.isAlphanum = false ∧ c ≠ '_' ∧ c ≠ '$' ∧ c ≠ '{') :
    expand env (a ++ b) = expand env a ++ expand env b := by
  have hbrace : ∀ c ∈ b.head?, c ≠ '{' := fun c hc => (hb c hc).2.2.2
  have hdollar : ∀ c ∈ b.head?, c ≠ '$' := fun c hc => (hb c hc).2.2.1
  have hend : EndsName (expandBraced env b) := by
    intro c hc
    rw [head?_expandBraced hdollar] at hc
    obtain ⟨halphanum, hunderscore, -⟩ := hb c hc
    simp [isNamePart, halphanum, hunderscore]
  rw [expand, expand, expand, expandBraced_append ha hbrace, expandBare_append hend]

/-- A dollar sign and an open brace that values bring in find nothing to refer to behind the cut. -/
theorem values_with_dollars_are_expanded_apart :
    let env : Environment := [("A", "$"), ("B", "$\x7bA")]
    let a := "$A${B}".toList
    let b := "-$A\x7d".toList
    ClosesBraces a ∧ (∀ c ∈ b.head?, c.isAlphanum = false ∧ c ≠ '_' ∧ c ≠ '$' ∧ c ≠ '{') ∧
      expand env (a ++ b) = expand env a ++ expand env b ∧
      expand env a = "$$\x7bA".toList ∧ expand env b = "-$\x7d".toList := by
  intro env a b
  have ha : ClosesBraces a := by decide
  have hb : ∀ c ∈ b.head?, c.isAlphanum = false ∧ c ≠ '_' ∧ c ≠ '$' ∧ c ≠ '{' := by
    intro c hc
    have hhead : b.head? = some '-' := by decide
    rw [hhead] at hc
    obtain rfl : '-' = c := Option.some.inj hc
    decide
  exact ⟨ha, hb, closed_text_is_expanded_apart ha hb, by decide +kernel, by decide +kernel⟩

end Expansion

/-! ## Words of a line -/

namespace Words

open Expansion

theorem ofLine_nil_env (line : String) :
    ofLine [] line = (written line.toList).map String.ofList := by
  rw [ofLine]
  refine List.map_congr_left fun word _ => ?_
  rw [expand_nil_env]

theorem ofLine_eq_map (env : Environment) (line : String) :
    ofLine env line =
      (ofLine [] line).map fun word => String.ofList (expand env word.toList) := by
  rw [ofLine, ofLine_nil_env, List.map_map]
  refine List.map_congr_left fun word _ => ?_
  rw [Function.comp_apply, String.toList_ofList]

/-- Expansion splits no word and joins none: whatever the values are, a line has as many words as
without variables, and each is the word that is written there, expanded. A text that refers only to
variables that are not set stays as it is, and so every text does when no variable is set. -/
theorem expansion_splits_no_word (env : Environment) (line : String) (text : List Char) :
    (ofLine env line).length = (ofLine [] line).length ∧
    (∀ i : Nat, (ofLine env line)[i]? =
      (ofLine [] line)[i]?.map fun word => String.ofList (expand env word.toList)) ∧
    (RefersToUnset env text → expand env text = text) ∧
    expand [] text = text := by
  have hmap := ofLine_eq_map env line
  refine ⟨?_, ?_, expand_of_refersToUnset, expand_nil_env text⟩
  · rw [hmap, List.length_map]
  · intro i
    rw [hmap, List.getElem?_map]

/-- An empty value leaves an empty word, and a longer name than the one that is set is another. -/
theorem empty_value_splits_no_word :
    let env : Environment := [("HOME", "x  'y"), ("A", "")]
    let line := "echo $HOME'${A}  ' ${A}"
    let text := "${}$HOMER$\x7bA$5".toList
    (ofLine env line).length = (ofLine [] line).length ∧ (ofLine env line)[2]? = some "" ∧
      RefersToUnset env text ∧ expand env text = text := by
  intro env line text
  have hunset : RefersToUnset env text := by decide
  have hwords : ofLine [] line = ["echo", "$HOME'${A}  '", "${A}"] := by
    rw [ofLine_nil_env]
    decide
  have hempty : expand env "${A}".toList = [] := by decide +kernel
  obtain ⟨hlength, hword, hkept, -⟩ := expansion_splits_no_word env line text
  refine ⟨hlength, ?_, hunset, hkept hunset⟩
  rw [hword 2, hwords]
  exact congrArg (fun word => some (String.ofList word)) hempty

end Words

end TreeShell
