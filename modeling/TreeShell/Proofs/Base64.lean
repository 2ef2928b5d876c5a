import Mathlib.Algebra.Group.Nat.Defs
import Mathlib.Data.List.Basic
import Mathlib.Tactic.SplitIfs
import TreeShell.Text.Base64
import TreeShell.Text.Blank

/-!
# Canonical base64

A text is canonical base64 if it consists of characters of the alphabet and, at its end, of as much
padding as its length and its last bits require. Exactly the canonical texts are written for some
bytes, and a text is read as certain bytes just when it is what is written for them.
-/

namespace TreeShell.Text.Base64

/-! ## The alphabet -/

theorem sextet?_alphabet {n : Nat} (h : n < 64) : sextet? (alphabet n) = some n := by
  have hall : ∀ n < 64, sextet? (alphabet n) = some n := by decide
  exact hall n h

/-- The alphabet in its order. -/
example : String.ofList ((List.range 64).map alphabet) =
    "ABCDEFGHIJKLMNOPQRSTUVWXYZabcdefghijklmnopqrstuvwxyz0123456789+/" := by decide

theorem alphabet_of_sextet? {c : Char} {n : Nat} (h : sextet? c = some n) :
    n < 64 ∧ alphabet n = c := by
  have hle (a b : Char) : a ≤ b ↔ a.toNat ≤ b.toNat := UInt32.le_iff_toNat_le
  have hback {first : Nat} (hfirst : first ≤ c.toNat) :
      Char.ofNat (first + (c.toNat - first)) = c := by
    rw [Nat.add_sub_cancel' hfirst, Char.ofNat_toNat]
  have hA : 'A'.toNat = 65 := rfl
  have hZ : 'Z'.toNat = 90 := rfl
  have ha : 'a'.toNat = 97 := rfl
  have hz : 'z'.toNat = 122 := rfl
  have h0 : '0'.toNat = 48 := rfl
  have h9 : '9'.toNat = 57 := rfl
  simp only [sextet?, hle, hA, hZ, ha, hz, h0, h9] at h
  split_ifs at h with hupper hlower hdigit hplus hslash
  · obtain rfl := Option.some.inj h
    refine ⟨by omega, ?_⟩
    rw [alphabet, if_pos (by omega), hback hupper.1]
  · obtain rfl := Option.some.inj h
    refine ⟨by omega, ?_⟩
    rw [alphabet, if_neg (by omega), if_pos (by omega), Nat.add_sub_cancel, hback hlower.1]
  · obtain rfl := Option.some.inj h
    refine ⟨by omega, ?_⟩
    rw [alphabet, if_neg (by omega), if_neg (by omega), if_pos (by omega), Nat.add_sub_cancel,
      hback hdigit.1]
  · obtain rfl := Option.some.inj h
    exact ⟨by decide, hplus ▸ rfl⟩
  · obtain rfl := Option.some.inj h
    exact ⟨by decide, hslash ▸ rfl⟩

theorem alphabet_ne_padding {n : Nat} (h : n < 64) : alphabet n ≠ '=' := by
  have hall : ∀ n < 64, alphabet n ≠ '=' := by decide
  exact hall n h

theorem isBlank_alphabet {n : Nat} (h : n < 64) : isBlank (alphabet n) = false := by
  have hall : ∀ n < 64, isBlank (alphabet n) = false := by decide
  exact hall n h

/-! ## Groups -/

section Groups

variable {w x y z : Nat}

theorem toNat_ofNat_of_lt {n : Nat} (h : n < 256) : (UInt8.ofNat n).toNat = n :=
  UInt8.toNat_ofNat_of_lt' h

theorem encode_single (hx : x < 64) (hy : y < 64) (hbits : y % 16 = 0) :
    encode [UInt8.ofNat ((x * 64 + y) / 16)] = [alphabet x, alphabet y, '=', '='] := by
  have hbyte : (UInt8.ofNat ((x * 64 + y) / 16)).toNat = (x * 64 + y) / 16 :=
    toNat_ofNat_of_lt (by omega)
  have hfirst : (x * 64 + y) / 16 * 16 / 64 = x := by omega
  have hsecond : (x * 64 + y) / 16 * 16 % 64 = y := by omega
  simp only [encode, hbyte, hfirst, hsecond]

theorem encode_pair (hx : x < 64) (hy : y < 64) (hz : z < 64) (hbits : z % 4 = 0) :
    encode [UInt8.ofNat (((x * 64 + y) * 64 + z) / 1024),
        UInt8.ofNat (((x * 64 + y) * 64 + z) / 4 % 256)] =
      [alphabet x, alphabet y, alphabet z, '='] := by
  generalize hn : (x * 64 + y) * 64 + z = n
  have hhigh : (UInt8.ofNat (n / 1024)).toNat = n / 1024 := toNat_ofNat_of_lt (by omega)
  have hlow : (UInt8.ofNat (n / 4 % 256)).toNat = n / 4 % 256 := toNat_ofNat_of_lt (by omega)
  have hvalue : (n / 1024 * 256 + n / 4 % 256) * 4 = n := by omega
  have hfirst : n / 4096 = x := by omega
  have hsecond : n / 64 % 64 = y := by omega
  have hthird : n % 64 = z := by omega
  simp only [encode, hhigh, hlow, hvalue, hfirst, hsecond, hthird]

theorem encode_group (hw : w < 64) (hx : x < 64) (hy : y < 64) (hz : z < 64) (rest : List UInt8) :
    encode (UInt8.ofNat ((((w * 64 + x) * 64 + y) * 64 + z) / 65536) ::
        UInt8.ofNat ((((w * 64 + x) * 64 + y) * 64 + z) / 256 % 256) ::
        UInt8.ofNat ((((w * 64 + x) * 64 + y) * 64 + z) % 256) :: rest) =
      alphabet w :: alphabet x :: alphabet y :: alphabet z :: encode rest := by
  generalize hn : ((w * 64 + x) * 64 + y) * 64 + z = n
  have hhigh : (UInt8.ofNat (n / 65536)).toNat = n / 65536 := toNat_ofNat_of_lt (by omega)
  have hmiddle : (UInt8.ofNat (n / 256 % 256)).toNat = n / 256 % 256 :=
    toNat_ofNat_of_lt (by omega)
  have hlow : (UInt8.ofNat (n % 256)).toNat = n % 256 := toNat_ofNat_of_lt (by omega)
  have hvalue : (n / 65536 * 256 + n / 256 % 256) * 256 + n % 256 = n := by omega
  have hfirst : n / 262144 = w := by omega
  have hsecond : n / 4096 % 64 = x := by omega
  have hthird : n / 64 % 64 = y := by omega
  have hfourth : n % 64 = z := by omega
  simp only [encode, hhigh, hmiddle, hlow, hvalue, hfirst, hsecond, hthird, hfourth]

end Groups

/-! ## Reading and writing -/

theorem decode_encode (bytes : List UInt8) : decode (encode bytes) = some bytes := by
  induction bytes using encode.induct with
  | case1 => rfl
  | case2 a =>
    have ha := a.toNat_lt
    have hvalue : (a.toNat * 16 / 64 * 64 + a.toNat * 16 % 64) = a.toNat * 16 := by omega
    have hbits : a.toNat * 16 % 16 = 0 := by omega
    have hbyte : a.toNat * 16 / 16 = a.toNat := by omega
    rw [encode, decode, sextet?_alphabet (by omega), sextet?_alphabet (by omega)]
    simp only [Option.bind_eq_bind, Option.bind_some, hvalue, hbits, hbyte, if_true,
      UInt8.ofNat_toNat]
  | case3 a b =>
    have ha := a.toNat_lt
    have hb := b.toNat_lt
    generalize hn : (a.toNat * 256 + b.toNat) * 4 = n
    have hvalue : (n / 4096 * 64 + n / 64 % 64) * 64 + n % 64 = n := by omega
    have hbits : n % 4 = 0 := by omega
    have hhigh : n / 1024 = a.toNat := by omega
    have hlow : n / 4 % 256 = b.toNat := by omega
    rw [encode, hn, decode, sextet?_alphabet (by omega), sextet?_alphabet (by omega),
      sextet?_alphabet (by omega)]
    · simp only [Option.bind_eq_bind, Option.bind_some, hvalue, hbits, hhigh, hlow, if_true,
        UInt8.ofNat_toNat]
    · exact alphabet_ne_padding (by omega)
  | case4 a b c rest ih =>
    have ha := a.toNat_lt
    have hb := b.toNat_lt
    have hc := c.toNat_lt
    generalize hn : (a.toNat * 256 + b.toNat) * 256 + c.toNat = n
    have hvalue : ((n / 262144 * 64 + n / 4096 % 64) * 64 + n / 64 % 64) * 64 + n % 64 = n := by
      omega
    have hhigh : n / 65536 = a.toNat := by omega
    have hmiddle : n / 256 % 256 = b.toNat := by omega
    have hlow : n % 256 = c.toNat := by omega
    have hpadding : alphabet (n % 64) ≠ '=' := alphabet_ne_padding (by omega)
    rw [encode, hn, decode, sextet?_alphabet (by omega), sextet?_alphabet (by omega),
      sextet?_alphabet (by omega), sextet?_alphabet (by omega), ih]
    · simp only [Option.bind_eq_bind, Option.bind_some, hvalue, hhigh, hmiddle, hlow,
        UInt8.ofNat_toNat]
    · exact fun _ heq => absurd heq hpadding
    · exact fun heq => absurd heq hpadding

theorem eq_encode_of_decode {cs : List Char} {bytes : List UInt8} (h : decode cs = some bytes) :
    cs = encode bytes := by
  induction cs using decode.induct generalizing bytes with
  | case1 =>
    obtain rfl := Option.some.inj h
    rfl
  | case2 a b =>
    rw [decode] at h
    simp only [Option.bind_eq_bind, Option.bind_eq_some_iff] at h
    obtain ⟨x, hx, y, hy, h⟩ := h
    obtain ⟨hxlt, rfl⟩ := alphabet_of_sextet? hx
    obtain ⟨hylt, rfl⟩ := alphabet_of_sextet? hy
    split_ifs at h with hbits
    obtain rfl := Option.some.inj h
    exact (encode_single hxlt hylt (by omega)).symm
  | case3 a b c hc =>
    rw [decode] at h
    · simp only [Option.bind_eq_bind, Option.bind_eq_some_iff] at h
      obtain ⟨x, hx, y, hy, z, hz, h⟩ := h
      obtain ⟨hxlt, rfl⟩ := alphabet_of_sextet? hx
      obtain ⟨hylt, rfl⟩ := alphabet_of_sextet? hy
      obtain ⟨hzlt, rfl⟩ := alphabet_of_sextet? hz
      split_ifs at h with hbits
      obtain rfl := Option.some.inj h
      exact (encode_pair hxlt hylt hzlt (by omega)).symm
    · exact hc
  | case4 a b c d rest hcd hd ih =>
    rw [decode] at h
    · simp only [Option.bind_eq_bind, Option.bind_eq_some_iff] at h
      obtain ⟨w, hw, x, hx, y, hy, z, hz, bytes', hrest, h⟩ := h
      obtain ⟨hwlt, rfl⟩ := alphabet_of_sextet? hw
      obtain ⟨hxlt, rfl⟩ := alphabet_of_sextet? hx
      obtain ⟨hylt, rfl⟩ := alphabet_of_sextet? hy
      obtain ⟨hzlt, rfl⟩ := alphabet_of_sextet? hz
      obtain rfl := Option.some.inj h
      rw [ih hrest]
      exact (encode_group hwlt hxlt hylt hzlt bytes').symm
    · exact hcd
    · exact hd
  | case5 cs hnil hsingle hpair hgroup =>
    rw [decode] at h
    · cases h
    · exact hnil
    · exact hsingle
    · exact hpair
    · exact hgroup

theorem decode_eq_some_iff {cs : List Char} {bytes : List UInt8} :
    decode cs = some bytes ↔ cs = encode bytes :=
  ⟨eq_encode_of_decode, fun h => h ▸ decode_encode bytes⟩

/-! ## Canonical texts -/

/-- The numbers for which the characters of a canonical text stand, and the length of its padding.
Each character of padding stands for two bits that are missing at the end, and these are zero in the
last number. -/
structure AreSextets (sextets : List Nat) (padding : Nat) : Prop where
  lt : ∀ n ∈ sextets, n < 64
  padding_le : padding ≤ 2
  full : (sextets.length + padding) % 4 = 0
  bits : ∀ n, sextets.getLast? = some n → n % 4 ^ padding = 0

/-- Characters of the alphabet with the padding that they require. -/
def IsCanonical (cs : List Char) : Prop :=
  ∃ sextets padding, AreSextets sextets padding ∧
    cs = sextets.map alphabet ++ List.replicate padding '='

section Sextets

variable {w x y z padding : Nat} {sextets : List Nat}

theorem areSextets_nil_iff : AreSextets [] padding ↔ padding = 0 := by
  constructor
  · rintro ⟨-, hpadding, hfull, -⟩
    rw [List.length_nil] at hfull
    omega
  · rintro rfl
    exact ⟨by simp, by decide, by decide, by simp⟩

theorem not_areSextets_singleton : ¬ AreSextets [x] padding := by
  rintro ⟨-, hpadding, hfull, -⟩
  rw [List.length_singleton] at hfull
  omega

theorem areSextets_two_iff :
    AreSextets [x, y] padding ↔ (x < 64 ∧ y < 64) ∧ padding = 2 ∧ y % 16 = 0 := by
  constructor
  · rintro ⟨hlt, hpadding, hfull, hbits⟩
    simp only [List.length_cons, List.length_nil] at hfull
    obtain rfl : padding = 2 := by omega
    exact ⟨⟨hlt x (by simp), hlt y (by simp)⟩, rfl, hbits y rfl⟩
  · rintro ⟨⟨hx, hy⟩, rfl, hbits⟩
    refine ⟨by simp [hx, hy], by decide, by simp, ?_⟩
    intro n hn
    obtain rfl := Option.some.inj hn
    exact hbits

theorem areSextets_three_iff :
    AreSextets [x, y, z] padding ↔ (x < 64 ∧ y < 64 ∧ z < 64) ∧ padding = 1 ∧ z % 4 = 0 := by
  constructor
  · rintro ⟨hlt, hpadding, hfull, hbits⟩
    simp only [List.length_cons, List.length_nil] at hfull
    obtain rfl : padding = 1 := by omega
    exact ⟨⟨hlt x (by simp), hlt y (by simp), hlt z (by simp)⟩, rfl, hbits z rfl⟩
  · rintro ⟨⟨hx, hy, hz⟩, rfl, hbits⟩
    refine ⟨by simp [hx, hy, hz], by decide, by simp, ?_⟩
    intro n hn
    obtain rfl := Option.some.inj hn
    exact hbits

/-- A full group leaves the rest what it is. -/
theorem areSextets_group_iff :
    AreSextets (w :: x :: y :: z :: sextets) padding ↔
      (w < 64 ∧ x < 64 ∧ y < 64 ∧ z < 64) ∧ AreSextets sextets padding := by
  have hfull : (w :: x :: y :: z :: sextets).length + padding =
      sextets.length + padding + 4 := by
    simp only [List.length_cons]
    omega
  constructor
  · rintro ⟨hlt, hpadding, hlength, hbits⟩
    rw [hfull, Nat.add_mod_right] at hlength
    simp only [List.forall_mem_cons] at hlt
    obtain ⟨hw, hx, hy, hz, hrest⟩ := hlt
    refine ⟨⟨hw, hx, hy, hz⟩, hrest, hpadding, hlength, ?_⟩
    intro n hn
    refine hbits n ?_
    simp only [List.getLast?_cons, hn, Option.getD_some]
  · rintro ⟨⟨hw, hx, hy, hz⟩, hrest⟩
    refine ⟨?_, hrest.padding_le, ?_, ?_⟩
    · simp only [List.forall_mem_cons]
      exact ⟨hw, hx, hy, hz, hrest.lt⟩
    · rw [hfull, Nat.add_mod_right]
      exact hrest.full
    · intro n hn
      by_cases hnil : sextets = []
      · -- the group is the last one, and there is no padding behind it
        subst hnil
        obtain rfl := areSextets_nil_iff.mp hrest
        exact Nat.mod_one n
      · refine hrest.bits n ?_
        rw [← hn, List.getLast?_cons_of_ne_nil (by simp), List.getLast?_cons_of_ne_nil (by simp),
          List.getLast?_cons_of_ne_nil (by simp), List.getLast?_cons_of_ne_nil hnil]

end Sextets

theorem isCanonical_encode (bytes : List UInt8) : IsCanonical (encode bytes) := by
  induction bytes using encode.induct with
  | case1 => exact ⟨[], 0, areSextets_nil_iff.mpr rfl, rfl⟩
  | case2 a =>
    have ha := a.toNat_lt
    refine ⟨_, 2, areSextets_two_iff.mpr ⟨⟨?_, ?_⟩, rfl, ?_⟩, by rw [encode]; rfl⟩ <;> omega
  | case3 a b =>
    have ha := a.toNat_lt
    have hb := b.toNat_lt
    refine ⟨_, 1, areSextets_three_iff.mpr ⟨⟨?_, ?_, ?_⟩, rfl, ?_⟩, by rw [encode]; rfl⟩ <;> omega
  | case4 a b c rest ih =>
    have ha := a.toNat_lt
    have hb := b.toNat_lt
    have hc := c.toNat_lt
    obtain ⟨sextets, padding, hsextets, hrest⟩ := ih
    refine ⟨_, padding, areSextets_group_iff.mpr ⟨⟨?_, ?_, ?_, ?_⟩, hsextets⟩,
      by rw [encode, hrest]; rfl⟩ <;> omega

theorem exists_encode_eq {padding : Nat} : ∀ {sextets : List Nat}, AreSextets sextets padding →
    ∃ bytes, sextets.map alphabet ++ List.replicate padding '=' = encode bytes
  | [], h => by
    obtain rfl := areSextets_nil_iff.mp h
    exact ⟨[], rfl⟩
  | [x], h => absurd h not_areSextets_singleton
  | [x, y], h => by
    obtain ⟨⟨hx, hy⟩, rfl, hbits⟩ := areSextets_two_iff.mp h
    exact ⟨_, (encode_single hx hy hbits).symm⟩
  | [x, y, z], h => by
    obtain ⟨⟨hx, hy, hz⟩, rfl, hbits⟩ := areSextets_three_iff.mp h
    exact ⟨_, (encode_pair hx hy hz hbits).symm⟩
  | w :: x :: y :: z :: sextets, h => by
    obtain ⟨⟨hw, hx, hy, hz⟩, hrest⟩ := areSextets_group_iff.mp h
    obtain ⟨bytes, hbytes⟩ := exists_encode_eq hrest
    refine ⟨_, (?_ : _ = _).trans (encode_group hw hx hy hz bytes).symm⟩
    rw [← hbytes]
    rfl

theorem isCanonical_iff {cs : List Char} : IsCanonical cs ↔ ∃ bytes, cs = encode bytes := by
  constructor
  · rintro ⟨sextets, padding, hsextets, rfl⟩
    exact exists_encode_eq hsextets
  · rintro ⟨bytes, rfl⟩
    exact isCanonical_encode bytes

theorem decode_eq_none_iff {cs : List Char} : decode cs = none ↔ ¬ IsCanonical cs := by
  rw [Option.eq_none_iff_forall_ne_some, isCanonical_iff, not_exists]
  simp only [ne_eq, decode_eq_some_iff]

theorem not_isBlank_of_mem_encode {bytes : List UInt8} {c : Char} (h : c ∈ encode bytes) :
    isBlank c = false := by
  obtain ⟨sextets, padding, hsextets, htext⟩ := isCanonical_encode bytes
  rw [htext] at h
  rcases List.mem_append.mp h with h | h
  · obtain ⟨n, hn, rfl⟩ := List.mem_map.mp h
    exact isBlank_alphabet (hsextets.lt n hn)
  · rw [List.eq_of_mem_replicate h]
    decide

end TreeShell.Text.Base64
