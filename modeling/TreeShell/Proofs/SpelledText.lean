import Mathlib.Data.List.Basic
import Mathlib.Tactic.IntervalCases
import TreeShell.Document.Json.Quoted

/-!
# Spellings of a text

Between double quotes a character can be written in several ways: as it is, unless it is a quote, a
backslash or a control character; by a letter behind a backslash, for eight characters; and by the
hexadecimal digits of its one or two code units, in either case. Every text has a spelling, and
whatever spelling is chosen, the text is read back from it.
-/

namespace TreeShell.Document.Json

/-! ## Spellings -/

/-- A hexadecimal digit of a value, in either case. -/
def SpellsDigit (value : Nat) (digit : Char) : Prop :=
  "0123456789abcdef".toList[value]? = some digit ∨ "0123456789ABCDEF".toList[value]? = some digit

/-- Four hexadecimal digits of a code unit. -/
inductive SpellsUnit : Nat → List Char → Prop
  | digits {w x y z : Nat} {a b c d : Char} (ha : SpellsDigit w a) (hb : SpellsDigit x b)
      (hc : SpellsDigit y c) (hd : SpellsDigit z d) :
      SpellsUnit (0x1000 * w + 0x100 * x + 0x10 * y + z) [a, b, c, d]

/-- The letters that stand for characters behind a backslash. -/
def escapeLetters : List (Char × Char) :=
  [('"', '"'), ('\\', '\\'), ('/', '/'), ('b', '\x08'), ('f', '\x0C'), ('n', '\n'), ('r', '\r'),
    ('t', '\t')]

/-- The ways to write a character. -/
inductive SpellsChar : Char → List Char → Prop
  | plain {c : Char} (hquote : c ≠ '"') (hbackslash : c ≠ '\\') (hcontrol : 0x20 ≤ c.toNat) :
      SpellsChar c [c]
  | letter {c letter : Char} (h : (letter, c) ∈ escapeLetters) : SpellsChar c ['\\', letter]
  | unit {c : Char} {digits : List Char} (h : SpellsUnit c.toNat digits) :
      SpellsChar c ('\\' :: 'u' :: digits)
  | pair {c : Char} {high low : Nat} {front back : List Char}
      (hhigh : high < 0x400) (hlow : low < 0x400) (hc : c.toNat = 0x10000 + 0x400 * high + low)
      (hfront : SpellsUnit (0xD800 + high) front) (hback : SpellsUnit (0xDC00 + low) back) :
      SpellsChar c ('\\' :: 'u' :: (front ++ '\\' :: 'u' :: back))

/-- The ways to write a text, without the quotes around it. -/
inductive SpellsText : List Char → List Char → Prop
  | nil : SpellsText [] []
  | cons {c : Char} {text front back : List Char} (hc : SpellsChar c front)
      (htext : SpellsText text back) : SpellsText (c :: text) (front ++ back)

/-- A text without quotes, backslashes and control characters can be written as it is. -/
theorem spellsText_self {text : List Char}
    (h : text.all (fun c => c ≠ '"' && c ≠ '\\' && 0x20 ≤ c.toNat) = true) :
    SpellsText text text := by
  induction text with
  | nil => exact .nil
  | cons c text ih =>
    rw [List.all_cons, Bool.and_eq_true] at h
    have hc : (c ≠ '"' ∧ c ≠ '\\') ∧ 0x20 ≤ c.toNat := by simpa using h.1
    exact .cons (.plain hc.1.1 hc.1.2 hc.2) (ih h.2)

/-! ## Reading a spelling -/

theorem lt_of_spellsDigit {value : Nat} {digit : Char} (h : SpellsDigit value digit) :
    value < 16 := by
  rcases h with h | h
  · exact (List.getElem?_eq_some_iff.mp h).1
  · exact (List.getElem?_eq_some_iff.mp h).1

theorem hexDigit?_of_spellsDigit {value : Nat} {digit : Char} (h : SpellsDigit value digit) :
    hexDigit? digit = some value := by
  have hlt := lt_of_spellsDigit h
  interval_cases value <;> rcases h with h | h <;> rw [← Option.some.inj h] <;> decide

/-- A code unit is read from its digits. -/
theorem exists_codeUnit?_of_spellsUnit {unit : Nat} {digits : List Char}
    (h : SpellsUnit unit digits) :
    ∃ a b c d, digits = [a, b, c, d] ∧ codeUnit? a b c d = some unit := by
  cases h with
  | @digits w x y z a b c d ha hb hc hd =>
    refine ⟨a, b, c, d, rfl, ?_⟩
    rw [codeUnit?, hexDigit?_of_spellsDigit ha, hexDigit?_of_spellsDigit hb,
      hexDigit?_of_spellsDigit hc, hexDigit?_of_spellsDigit hd]
    show some _ = some _
    congr 1
    omega

theorem letterEscape?_of_mem {letter c : Char} (h : (letter, c) ∈ escapeLetters) :
    letterEscape? letter = some c ∧ letter ≠ 'u' := by
  have hall : ∀ pair ∈ escapeLetters, letterEscape? pair.1 = some pair.2 ∧ pair.1 ≠ 'u' := by decide
  exact hall (letter, c) h

theorem toNat_not_surrogate (c : Char) : c.toNat < 0xD800 ∨ 0xDFFF < c.toNat := by
  rcases c.valid with h | ⟨h, -⟩
  · exact Or.inl h
  · exact Or.inr h

theorem escape?_of_unit {c : Char} {digits : List Char} (h : SpellsUnit c.toNat digits)
    (rest : List Char) : escape? ('u' :: (digits ++ rest)) = some (c, rest) := by
  obtain ⟨w, x, y, z, rfl, hunit⟩ := exists_codeUnit?_of_spellsUnit h
  have hc := toNat_not_surrogate c
  have hhigh : ¬(0xD800 ≤ c.toNat ∧ c.toNat ≤ 0xDBFF) := by omega
  have hlow : ¬(0xDC00 ≤ c.toNat ∧ c.toNat ≤ 0xDFFF) := by omega
  show escape? ('u' :: w :: x :: y :: z :: rest) = some (c, rest)
  rw [escape?, hunit]
  simp only [Option.bind_eq_bind, Option.bind_some, if_neg hhigh, if_neg hlow, Char.ofNat_toNat]

theorem escape?_of_pair {c : Char} {high low : Nat} {front back : List Char}
    (hhigh : high < 0x400) (hlow : low < 0x400) (hc : c.toNat = 0x10000 + 0x400 * high + low)
    (hfront : SpellsUnit (0xD800 + high) front) (hback : SpellsUnit (0xDC00 + low) back)
    (rest : List Char) :
    escape? ('u' :: (front ++ '\\' :: 'u' :: (back ++ rest))) = some (c, rest) := by
  obtain ⟨w, x, y, z, rfl, hfirst⟩ := exists_codeUnit?_of_spellsUnit hfront
  obtain ⟨w', x', y', z', rfl, hsecond⟩ := exists_codeUnit?_of_spellsUnit hback
  have hhigh' : 0xD800 ≤ 0xD800 + high ∧ 0xD800 + high ≤ 0xDBFF := by omega
  have hlow' : 0xDC00 ≤ 0xDC00 + low ∧ 0xDC00 + low ≤ 0xDFFF := by omega
  have hvalue : 0x10000 + (0xD800 + high - 0xD800) * 0x400 + (0xDC00 + low - 0xDC00) = c.toNat := by
    omega
  show escape? ('u' :: w :: x :: y :: z :: '\\' :: 'u' :: w' :: x' :: y' :: z' :: rest) = _
  rw [escape?, hfirst]
  simp only [Option.bind_eq_bind, Option.bind_some, if_pos hhigh', hsecond, if_pos hlow', hvalue,
    Char.ofNat_toNat]

theorem quoted?_backslash {c : Char} {cs rest : List Char} (h : escape? cs = some (c, rest)) :
    quoted? ('\\' :: cs) = (quoted? rest).map fun (text, rest) => (c :: text, rest) := by
  rw [quoted?]
  split
  · next c' rest' h' =>
    rw [h] at h'
    obtain ⟨rfl, rfl⟩ := Prod.mk.inj (Option.some.inj h')
    rfl
  · next h' =>
    rw [h] at h'
    exact absurd h' (by simp)

/-- A character is read from every way to write it. -/
theorem quoted?_of_spellsChar {c : Char} {written : List Char} (h : SpellsChar c written)
    (rest : List Char) :
    quoted? (written ++ rest) = (quoted? rest).map fun (text, rest) => (c :: text, rest) := by
  cases h with
  | plain hquote hbackslash hcontrol =>
    have hnot : ¬c.toNat < 0x20 := by omega
    rw [List.singleton_append, quoted?, if_neg hnot]
    · exact hquote
    · exact hbackslash
  | @letter letter h =>
    obtain ⟨hletter, hu⟩ := letterEscape?_of_mem h
    refine quoted?_backslash ?_
    show escape? (letter :: rest) = some (c, rest)
    rw [escape?, hletter]
    · rfl
    · intro a b c d rest' heq
      exact absurd heq hu
  | unit h => exact quoted?_backslash (escape?_of_unit h rest)
  | @pair high low front back hhigh hlow hc hfront hback =>
    have hlist : '\\' :: 'u' :: (front ++ '\\' :: 'u' :: back) ++ rest =
        '\\' :: 'u' :: (front ++ '\\' :: 'u' :: (back ++ rest)) := by simp
    rw [hlist]
    exact quoted?_backslash (escape?_of_pair hhigh hlow hc hfront hback rest)

/-- A text is read from every way to write it, up to the quote that ends it. -/
theorem quoted?_of_spellsText {text written : List Char} (h : SpellsText text written)
    (rest : List Char) : quoted? (written ++ '"' :: rest) = some (text, rest) := by
  induction h with
  | nil => rw [List.nil_append, quoted?]
  | cons hc _ ih =>
    rw [List.append_assoc, quoted?_of_spellsChar hc, ih]
    rfl

/-! ## Every text has a spelling -/

theorem exists_spellsDigit {value : Nat} (h : value < 16) : ∃ digit, SpellsDigit value digit :=
  ⟨_, Or.inl (List.getElem?_eq_getElem h)⟩

theorem exists_spellsUnit {unit : Nat} (h : unit < 0x10000) : ∃ digits, SpellsUnit unit digits := by
  obtain ⟨a, ha⟩ := exists_spellsDigit (show unit / 0x1000 < 16 by omega)
  obtain ⟨b, hb⟩ := exists_spellsDigit (show unit / 0x100 % 16 < 16 by omega)
  obtain ⟨c, hc⟩ := exists_spellsDigit (show unit / 0x10 % 16 < 16 by omega)
  obtain ⟨d, hd⟩ := exists_spellsDigit (show unit % 16 < 16 by omega)
  have hunit : unit = 0x1000 * (unit / 0x1000) + 0x100 * (unit / 0x100 % 16) +
      0x10 * (unit / 0x10 % 16) + unit % 16 := by omega
  have hdigits := SpellsUnit.digits ha hb hc hd
  rw [← hunit] at hdigits
  exact ⟨[a, b, c, d], hdigits⟩

/-- A character that cannot stand as it is has one code unit. -/
theorem exists_spellsChar (c : Char) : ∃ written, SpellsChar c written := by
  by_cases hplain : c ≠ '"' ∧ c ≠ '\\' ∧ 0x20 ≤ c.toNat
  · exact ⟨[c], .plain hplain.1 hplain.2.1 hplain.2.2⟩
  · have hsmall : c.toNat < 0x10000 := by
      by_contra hlarge
      refine hplain ⟨?_, ?_, by omega⟩
      · rintro rfl
        exact hlarge (by decide)
      · rintro rfl
        exact hlarge (by decide)
    obtain ⟨digits, hdigits⟩ := exists_spellsUnit hsmall
    exact ⟨_, .unit hdigits⟩

theorem exists_spellsText (text : List Char) : ∃ written, SpellsText text written := by
  induction text with
  | nil => exact ⟨[], .nil⟩
  | cons c text ih =>
    obtain ⟨front, hc⟩ := exists_spellsChar c
    obtain ⟨back, htext⟩ := ih
    exact ⟨front ++ back, .cons hc htext⟩

end TreeShell.Document.Json
