import Mathlib.Data.List.Basic
import Mathlib.Tactic.SplitIfs
import TreeShell.Text.Utf8

/-!
# The bytes of a character

The bytes of a character in UTF-8 are a first byte and as many more as the first one asks for, the
next of them between the bounds that the first one sets. Conversely all such bytes are those of a
character. So a list of bytes is the start of a character's bytes just when its bytes follow one
another in this way, and reading the rest of a character gives the number of the character.
-/

namespace TreeShell.Text

variable {least greatest count : Nat} {byte : UInt8} {tail : List UInt8} {lead : Lead}

/-! ## Bytes behind a first byte -/

/-- Bytes that may follow a first byte: one between the bounds that the first byte sets, and bytes
that continue any character behind it. -/
def Follows (least greatest : Nat) : List UInt8 → Prop
  | [] => True
  | byte :: bytes => (least ≤ byte.toNat ∧ byte.toNat ≤ greatest) ∧ Follows 0x80 0xBF bytes

/-- The number that starts with certain bits and goes on with six bits of each byte. -/
def numberOf (bits : Nat) (bytes : List UInt8) : Nat :=
  bytes.foldl (fun number byte => number * 64 + byte.toNat % 64) bits

theorem Follows.of_append {more : List UInt8} (h : Follows least greatest (tail ++ more)) :
    Follows least greatest tail := by
  induction tail generalizing least greatest with
  | nil => trivial
  | cons byte tail ih => exact ⟨h.1, ih h.2⟩

theorem Follows.between (h : Follows least greatest tail) (hleast : 0x80 ≤ least)
    (hgreatest : greatest ≤ 0xBF) : ∀ byte ∈ tail, 0x80 ≤ byte.toNat ∧ byte.toNat ≤ 0xBF := by
  induction tail generalizing least greatest with
  | nil => exact fun _ hnil => absurd hnil List.not_mem_nil
  | cons byte tail ih =>
    obtain ⟨hbyte, htail⟩ := h
    rw [List.forall_mem_cons]
    exact ⟨by omega, ih htail (Nat.le_refl _) (Nat.le_refl _)⟩

/-- Bytes that may follow can be brought to any greater length. -/
theorem Follows.exists_append (h : Follows least greatest tail) (hbounds : least ≤ greatest)
    (hbyte : greatest ≤ 0xBF) (hlength : tail.length ≤ count) :
    ∃ more, Follows least greatest (tail ++ more) ∧ (tail ++ more).length = count := by
  induction count generalizing least greatest tail with
  | zero =>
    obtain rfl := List.length_eq_zero_iff.mp (Nat.le_zero.mp hlength)
    exact ⟨[], trivial, rfl⟩
  | succ count ih =>
    cases tail with
    | nil =>
      have hempty : Follows 0x80 0xBF [] := trivial
      obtain ⟨more, hmore, hcount⟩ := ih hempty (by decide) (by decide) (Nat.zero_le count)
      have hlt : least < 256 := by omega
      have hnext : (UInt8.ofNat least).toNat = least := UInt8.toNat_ofNat_of_lt' hlt
      refine ⟨UInt8.ofNat least :: more, ⟨?_, hmore⟩, congrArg (· + 1) hcount⟩
      rw [hnext]
      exact ⟨Nat.le_refl least, hbounds⟩
    | cons byte tail =>
      obtain ⟨more, hmore, hcount⟩ :=
        ih h.2 (by decide) (by decide) (Nat.le_of_succ_le_succ hlength)
      exact ⟨more, ⟨h.1, hmore⟩, congrArg (· + 1) hcount⟩

/-! ## First bytes -/

theorem Lead.ofByte?_one (h : byte.toNat ≤ 0x7F) :
    Lead.ofByte? byte = some ⟨0, 0x80, 0xBF, byte.toNat⟩ := by
  simp only [Lead.ofByte?, if_pos h]

theorem Lead.ofByte?_two (h : 0xC2 ≤ byte.toNat ∧ byte.toNat ≤ 0xDF) :
    Lead.ofByte? byte = some ⟨1, 0x80, 0xBF, byte.toNat % 0x20⟩ := by
  have hone : ¬ byte.toNat ≤ 0x7F := by omega
  simp only [Lead.ofByte?, if_neg hone, if_pos h]

theorem Lead.ofByte?_three (h : 0xE0 ≤ byte.toNat ∧ byte.toNat ≤ 0xEF) :
    Lead.ofByte? byte = some ⟨2, if byte.toNat = 0xE0 then 0xA0 else 0x80,
      if byte.toNat = 0xED then 0x9F else 0xBF, byte.toNat % 0x10⟩ := by
  have hone : ¬ byte.toNat ≤ 0x7F := by omega
  have htwo : ¬ (0xC2 ≤ byte.toNat ∧ byte.toNat ≤ 0xDF) := by omega
  by_cases hlong : byte.toNat = 0xE0
  · have hsurrogate : ¬ byte.toNat = 0xED := by omega
    simp only [Lead.ofByte?, if_neg hone, if_neg htwo, if_pos hlong, if_neg hsurrogate]
  by_cases hsurrogate : byte.toNat = 0xED
  · simp only [Lead.ofByte?, if_neg hone, if_neg htwo, if_neg hlong, if_pos hsurrogate]
  · have hother : 0xE1 ≤ byte.toNat ∧ byte.toNat ≤ 0xEF := by omega
    simp only [Lead.ofByte?, if_neg hone, if_neg htwo, if_neg hlong, if_neg hsurrogate,
      if_pos hother]

theorem Lead.ofByte?_four (h : 0xF0 ≤ byte.toNat ∧ byte.toNat ≤ 0xF4) :
    Lead.ofByte? byte = some ⟨3, if byte.toNat = 0xF0 then 0x90 else 0x80,
      if byte.toNat = 0xF4 then 0x8F else 0xBF, byte.toNat % 0x08⟩ := by
  have hone : ¬ byte.toNat ≤ 0x7F := by omega
  have htwo : ¬ (0xC2 ≤ byte.toNat ∧ byte.toNat ≤ 0xDF) := by omega
  have hfirst : ¬ byte.toNat = 0xE0 := by omega
  have hsurrogate : ¬ byte.toNat = 0xED := by omega
  have hthree : ¬ (0xE1 ≤ byte.toNat ∧ byte.toNat ≤ 0xEF) := by omega
  by_cases hlong : byte.toNat = 0xF0
  · have hlast : ¬ byte.toNat = 0xF4 := by omega
    simp only [Lead.ofByte?, if_neg hone, if_neg htwo, if_neg hfirst, if_neg hsurrogate,
      if_neg hthree, if_pos hlong, if_neg hlast]
  by_cases hlast : byte.toNat = 0xF4
  · have hother : ¬ (0xF1 ≤ byte.toNat ∧ byte.toNat ≤ 0xF3) := by omega
    simp only [Lead.ofByte?, if_neg hone, if_neg htwo, if_neg hfirst, if_neg hsurrogate,
      if_neg hthree, if_neg hlong, if_neg hother, if_pos hlast]
  · have hother : 0xF1 ≤ byte.toNat ∧ byte.toNat ≤ 0xF3 := by omega
    simp only [Lead.ofByte?, if_neg hone, if_neg htwo, if_neg hfirst, if_neg hsurrogate,
      if_neg hthree, if_neg hlong, if_pos hother, if_neg hlast]

/-- First bytes are of four kinds, which differ in how many bytes follow. -/
theorem Lead.ofByte?_cases (h : Lead.ofByte? byte = some lead) :
    (byte.toNat ≤ 0x7F ∧ lead = ⟨0, 0x80, 0xBF, byte.toNat⟩) ∨
    ((0xC2 ≤ byte.toNat ∧ byte.toNat ≤ 0xDF) ∧
      lead = ⟨1, 0x80, 0xBF, byte.toNat % 0x20⟩) ∨
    ((0xE0 ≤ byte.toNat ∧ byte.toNat ≤ 0xEF) ∧
      lead = ⟨2, if byte.toNat = 0xE0 then 0xA0 else 0x80,
        if byte.toNat = 0xED then 0x9F else 0xBF, byte.toNat % 0x10⟩) ∨
    ((0xF0 ≤ byte.toNat ∧ byte.toNat ≤ 0xF4) ∧
      lead = ⟨3, if byte.toNat = 0xF0 then 0x90 else 0x80,
        if byte.toNat = 0xF4 then 0x8F else 0xBF, byte.toNat % 0x08⟩) := by
  have hrange : byte.toNat ≤ 0x7F ∨ (0xC2 ≤ byte.toNat ∧ byte.toNat ≤ 0xDF) ∨
      (0xE0 ≤ byte.toNat ∧ byte.toNat ≤ 0xEF) ∨ (0xF0 ≤ byte.toNat ∧ byte.toNat ≤ 0xF4) := by
    simp only [Lead.ofByte?] at h
    split_ifs at h <;> omega
  rcases hrange with hone | htwo | hthree | hfour
  · rw [Lead.ofByte?_one hone] at h
    exact Or.inl ⟨hone, (Option.some.inj h).symm⟩
  · rw [Lead.ofByte?_two htwo] at h
    exact Or.inr (Or.inl ⟨htwo, (Option.some.inj h).symm⟩)
  · rw [Lead.ofByte?_three hthree] at h
    exact Or.inr (Or.inr (Or.inl ⟨hthree, (Option.some.inj h).symm⟩))
  · rw [Lead.ofByte?_four hfour] at h
    exact Or.inr (Or.inr (Or.inr ⟨hfour, (Option.some.inj h).symm⟩))

theorem Lead.bounds (h : Lead.ofByte? byte = some lead) :
    0x80 ≤ lead.least ∧ lead.least ≤ lead.greatest ∧ lead.greatest ≤ 0xBF := by
  rcases Lead.ofByte?_cases h with ⟨-, rfl⟩ | ⟨-, rfl⟩ | ⟨-, rfl⟩ | ⟨-, rfl⟩
  · exact ⟨by simp, by simp, by simp⟩
  · exact ⟨by simp, by simp, by simp⟩
  · dsimp only
    split_ifs <;> omega
  · dsimp only
    split_ifs <;> omega

/-! ## Bytes and characters -/

section Character

variable {a b c d : UInt8}

theorem exists_char_toNat_eq {n : Nat} (h : n < 0xD800 ∨ 0xDFFF < n ∧ n < 0x110000) :
    ∃ char : Char, char.toNat = n := by
  refine ⟨Char.ofNat n, ?_⟩
  rw [Char.ofNat, dif_pos h]
  rfl

theorem exists_char_one (ha : a.toNat ≤ 0x7F) :
    ∃ char, String.utf8EncodeChar char = [a] ∧ char.toNat = a.toNat := by
  obtain ⟨char, hchar⟩ := exists_char_toNat_eq (n := a.toNat) (by omega)
  have hcode : char.val.toNat = a.toNat := hchar
  refine ⟨char, ?_, hchar⟩
  rw [String.utf8EncodeChar.eq_1, hcode, if_pos ha, UInt8.ofNat_toNat]

theorem exists_char_two (ha : 0xC2 ≤ a.toNat ∧ a.toNat ≤ 0xDF)
    (hb : 0x80 ≤ b.toNat ∧ b.toNat ≤ 0xBF) :
    ∃ char, String.utf8EncodeChar char = [a, b] ∧
      char.toNat = a.toNat % 0x20 * 64 + b.toNat % 64 := by
  generalize hn : a.toNat % 0x20 * 64 + b.toNat % 64 = n
  obtain ⟨char, hchar⟩ := exists_char_toNat_eq (n := n) (by omega)
  have hcode : char.val.toNat = n := hchar
  refine ⟨char, ?_, hchar⟩
  have hfirst : n / 64 % 32 + 192 = a.toNat := by omega
  have hsecond : n % 64 + 128 = b.toNat := by omega
  rw [String.utf8EncodeChar.eq_1, hcode, if_neg (by omega), if_pos (by omega), hfirst, hsecond,
    UInt8.ofNat_toNat, UInt8.ofNat_toNat]

theorem exists_char_three (ha : 0xE0 ≤ a.toNat ∧ a.toNat ≤ 0xEF)
    (hb : 0x80 ≤ b.toNat ∧ b.toNat ≤ 0xBF) (hc : 0x80 ≤ c.toNat ∧ c.toNat ≤ 0xBF)
    (hlong : a.toNat = 0xE0 → 0xA0 ≤ b.toNat) (hsurrogate : a.toNat = 0xED → b.toNat ≤ 0x9F) :
    ∃ char, String.utf8EncodeChar char = [a, b, c] ∧
      char.toNat = (a.toNat % 0x10 * 64 + b.toNat % 64) * 64 + c.toNat % 64 := by
  generalize hn : (a.toNat % 0x10 * 64 + b.toNat % 64) * 64 + c.toNat % 64 = n
  obtain ⟨char, hchar⟩ := exists_char_toNat_eq (n := n) (by omega)
  have hcode : char.val.toNat = n := hchar
  refine ⟨char, ?_, hchar⟩
  have hfirst : n / 4096 % 16 + 224 = a.toNat := by omega
  have hsecond : n / 64 % 64 + 128 = b.toNat := by omega
  have hthird : n % 64 + 128 = c.toNat := by omega
  rw [String.utf8EncodeChar.eq_1, hcode, if_neg (by omega), if_neg (by omega), if_pos (by omega),
    hfirst, hsecond, hthird, UInt8.ofNat_toNat, UInt8.ofNat_toNat, UInt8.ofNat_toNat]

theorem exists_char_four (ha : 0xF0 ≤ a.toNat ∧ a.toNat ≤ 0xF4)
    (hb : 0x80 ≤ b.toNat ∧ b.toNat ≤ 0xBF) (hc : 0x80 ≤ c.toNat ∧ c.toNat ≤ 0xBF)
    (hd : 0x80 ≤ d.toNat ∧ d.toNat ≤ 0xBF) (hlong : a.toNat = 0xF0 → 0x90 ≤ b.toNat)
    (hlast : a.toNat = 0xF4 → b.toNat ≤ 0x8F) :
    ∃ char, String.utf8EncodeChar char = [a, b, c, d] ∧
      char.toNat =
        ((a.toNat % 0x08 * 64 + b.toNat % 64) * 64 + c.toNat % 64) * 64 + d.toNat % 64 := by
  generalize hn :
    ((a.toNat % 0x08 * 64 + b.toNat % 64) * 64 + c.toNat % 64) * 64 + d.toNat % 64 = n
  obtain ⟨char, hchar⟩ := exists_char_toNat_eq (n := n) (by omega)
  have hcode : char.val.toNat = n := hchar
  refine ⟨char, ?_, hchar⟩
  have hfirst : n / 262144 % 8 + 240 = a.toNat := by omega
  have hsecond : n / 4096 % 64 + 128 = b.toNat := by omega
  have hthird : n / 64 % 64 + 128 = c.toNat := by omega
  have hfourth : n % 64 + 128 = d.toNat := by omega
  rw [String.utf8EncodeChar.eq_1, hcode, if_neg (by omega), if_neg (by omega), if_neg (by omega),
    hfirst, hsecond, hthird, hfourth, UInt8.ofNat_toNat, UInt8.ofNat_toNat, UInt8.ofNat_toNat,
    UInt8.ofNat_toNat]

end Character

theorem exists_char_of_follows (hlead : Lead.ofByte? byte = some lead)
    (h : Follows lead.least lead.greatest tail) (hcount : tail.length = lead.count) :
    ∃ char, String.utf8EncodeChar char = byte :: tail ∧ char.toNat = numberOf lead.bits tail := by
  rcases Lead.ofByte?_cases hlead with ⟨hone, rfl⟩ | ⟨htwo, rfl⟩ | ⟨hthree, rfl⟩ | ⟨hfour, rfl⟩
  · obtain rfl := List.length_eq_zero_iff.mp hcount
    exact exists_char_one hone
  · obtain ⟨b, rfl⟩ := List.length_eq_one_iff.mp hcount
    exact exists_char_two htwo h.1
  · obtain ⟨b, c, rfl⟩ := List.length_eq_two.mp hcount
    obtain ⟨hb, hc, -⟩ := h
    dsimp only at hb
    split_ifs at hb <;> exact exists_char_three hthree (by omega) hc (by omega) (by omega)
  · obtain ⟨b, c, d, rfl⟩ := List.length_eq_three.mp hcount
    obtain ⟨hb, hc, hd, -⟩ := h
    dsimp only at hb
    split_ifs at hb <;> exact exists_char_four hfour (by omega) hc hd (by omega) (by omega)

/-- The number of every character is written in a first byte and bytes that follow it. -/
theorem exists_follows_of_number {n : Nat} (hn : n < 0xD800 ∨ 0xDFFF < n ∧ n < 0x110000) :
    ∃ byte lead tail, Lead.ofByte? byte = some lead ∧ Follows lead.least lead.greatest tail ∧
      tail.length = lead.count ∧ numberOf lead.bits tail = n := by
  have hbyte {k : Nat} (hk : k < 256) : (UInt8.ofNat k).toNat = k := UInt8.toNat_ofNat_of_lt' hk
  have hlast : (UInt8.ofNat (n % 64 + 128)).toNat = n % 64 + 128 := hbyte (by omega)
  have hsixth : (UInt8.ofNat (n / 64 % 64 + 128)).toNat = n / 64 % 64 + 128 := hbyte (by omega)
  by_cases hone : n ≤ 0x7F
  · have ha : (UInt8.ofNat n).toNat = n := hbyte (by omega)
    exact ⟨UInt8.ofNat n, _, [], Lead.ofByte?_one (by omega), trivial, rfl, ha⟩
  by_cases htwo : n ≤ 0x7FF
  · have ha : (UInt8.ofNat (n / 64 + 192)).toNat = n / 64 + 192 := hbyte (by omega)
    refine ⟨UInt8.ofNat (n / 64 + 192), _, [UInt8.ofNat (n % 64 + 128)],
      Lead.ofByte?_two (by omega), ⟨?_, trivial⟩, rfl, ?_⟩
    · dsimp only
      omega
    · simp only [numberOf, List.foldl_cons, List.foldl_nil]
      omega
  by_cases hthree : n ≤ 0xFFFF
  · have ha : (UInt8.ofNat (n / 4096 + 224)).toNat = n / 4096 + 224 := hbyte (by omega)
    refine ⟨UInt8.ofNat (n / 4096 + 224), _,
      [UInt8.ofNat (n / 64 % 64 + 128), UInt8.ofNat (n % 64 + 128)],
      Lead.ofByte?_three (by omega), ⟨?_, by omega, trivial⟩, rfl, ?_⟩
    · dsimp only
      split_ifs <;> omega
    · simp only [numberOf, List.foldl_cons, List.foldl_nil]
      omega
  · have ha : (UInt8.ofNat (n / 262144 + 240)).toNat = n / 262144 + 240 := hbyte (by omega)
    have hb : (UInt8.ofNat (n / 4096 % 64 + 128)).toNat = n / 4096 % 64 + 128 := hbyte (by omega)
    refine ⟨UInt8.ofNat (n / 262144 + 240), _,
      [UInt8.ofNat (n / 4096 % 64 + 128), UInt8.ofNat (n / 64 % 64 + 128),
        UInt8.ofNat (n % 64 + 128)],
      Lead.ofByte?_four (by omega), ⟨?_, by omega, by omega, trivial⟩, rfl, ?_⟩
    · dsimp only
      split_ifs <;> omega
    · simp only [numberOf, List.foldl_cons, List.foldl_nil]
      omega

theorem exists_follows_of_char (char : Char) :
    ∃ byte lead tail, String.utf8EncodeChar char = byte :: tail ∧
      Lead.ofByte? byte = some lead ∧ Follows lead.least lead.greatest tail ∧
      tail.length = lead.count ∧ numberOf lead.bits tail = char.toNat := by
  obtain ⟨byte, lead, tail, hlead, hfollows, hcount, hnumber⟩ :=
    exists_follows_of_number (n := char.toNat) char.valid
  -- these bytes are those of a character, and no other one has the same number
  obtain ⟨other, hbytes, hother⟩ := exists_char_of_follows hlead hfollows hcount
  obtain rfl : other = char := Char.toNat_inj.mp (hother.trans hnumber)
  exact ⟨byte, lead, tail, hbytes, hlead, hfollows, hcount, hnumber⟩

/-! ## Starts of characters -/

/-- Bytes with which the bytes of a character start. -/
def StartsChar (bytes : List UInt8) : Prop := ∃ char, bytes <+: String.utf8EncodeChar char

theorem startsChar_utf8EncodeChar (char : Char) : StartsChar (String.utf8EncodeChar char) :=
  ⟨char, List.prefix_refl _⟩

theorem startsChar_cons_iff :
    StartsChar (byte :: tail) ↔ ∃ lead, Lead.ofByte? byte = some lead ∧
      Follows lead.least lead.greatest tail ∧ tail.length ≤ lead.count := by
  constructor
  · rintro ⟨char, hopens⟩
    obtain ⟨first, lead, others, hbytes, hlead, hfollows, hcount, -⟩ := exists_follows_of_char char
    rw [hbytes, List.cons_prefix_cons] at hopens
    obtain ⟨rfl, more, rfl⟩ := hopens
    rw [List.length_append] at hcount
    exact ⟨lead, hlead, hfollows.of_append, by omega⟩
  · rintro ⟨lead, hlead, hfollows, hlength⟩
    obtain ⟨-, hbounds, hgreatest⟩ := Lead.bounds hlead
    obtain ⟨more, hmore, hcount⟩ := hfollows.exists_append hbounds hgreatest hlength
    obtain ⟨char, hbytes, -⟩ := exists_char_of_follows hlead hmore hcount
    refine ⟨char, ?_⟩
    rw [hbytes, List.cons_prefix_cons]
    exact ⟨rfl, List.prefix_append tail more⟩

/-- A byte with which a character starts stands at no other place in a character. -/
theorem StartsChar.not_mem_tail (h : StartsChar (byte :: tail)) {first : UInt8}
    (hfirst : Lead.ofByte? first = some lead) : first ∉ tail := by
  intro hmem
  obtain ⟨lead', hlead, hfollows, -⟩ := startsChar_cons_iff.mp h
  obtain ⟨hleast, -, hgreatest⟩ := Lead.bounds hlead
  have hbetween := hfollows.between hleast hgreatest first hmem
  rcases Lead.ofByte?_cases hfirst with ⟨hrange, -⟩ | ⟨hrange, -⟩ | ⟨hrange, -⟩ | ⟨hrange, -⟩ <;>
    omega

end TreeShell.Text
