/-!
# Reading UTF-8 that may be damaged

Bytes are read as UTF-8 from left to right. Where they are no UTF-8, the longest start of a
character that stands there, or the single byte that can start none, is replaced by one U+FFFD, and
reading goes on behind it. So all valid parts are kept, and valid bytes are read as what they say.
-/

namespace TreeShell.Text

/-- What the first byte of a character says about the rest of it. -/
structure Lead where
  /-- How many bytes follow. -/
  count : Nat
  /-- The least value of the byte that follows first. -/
  least : Nat
  /-- The greatest value of the byte that follows first. -/
  greatest : Nat
  /-- The bits of the character in the first byte. -/
  bits : Nat

/-- What a first byte says; `none` if no character starts with it. The narrower ranges keep out
overlong forms, surrogates and numbers beyond the last character. -/
def Lead.ofByte? (byte : UInt8) : Option Lead :=
  let n := byte.toNat
  if n ≤ 0x7F then some ⟨0, 0x80, 0xBF, n⟩
  else if 0xC2 ≤ n ∧ n ≤ 0xDF then some ⟨1, 0x80, 0xBF, n % 0x20⟩
  else if n = 0xE0 then some ⟨2, 0xA0, 0xBF, n % 0x10⟩
  else if n = 0xED then some ⟨2, 0x80, 0x9F, n % 0x10⟩
  else if 0xE1 ≤ n ∧ n ≤ 0xEF then some ⟨2, 0x80, 0xBF, n % 0x10⟩
  else if n = 0xF0 then some ⟨3, 0x90, 0xBF, n % 0x08⟩
  else if 0xF1 ≤ n ∧ n ≤ 0xF3 then some ⟨3, 0x80, 0xBF, n % 0x08⟩
  else if n = 0xF4 then some ⟨3, 0x80, 0x8F, n % 0x08⟩
  else none

/-- Reads the `count` bytes that complete a character whose bits so far are `bits`, the first of
them between `least` and `greatest`. Gives the number of the character, or `none` where a byte does
not fit, and the bytes that are left. -/
def completeChar (least greatest bits : Nat) : Nat → List UInt8 → Option Nat × List UInt8
  | 0, bytes => (some bits, bytes)
  | _ + 1, [] => (none, [])
  | count + 1, byte :: bytes =>
    if least ≤ byte.toNat ∧ byte.toNat ≤ greatest then
      completeChar 0x80 0xBF (bits * 64 + byte.toNat % 64) count bytes
    else (none, byte :: bytes)

theorem length_completeChar (least greatest bits count : Nat) (bytes : List UInt8) :
    (completeChar least greatest bits count bytes).2.length ≤ bytes.length := by
  fun_induction completeChar least greatest bits count bytes with
  | case1 => simp
  | case2 => simp
  | case3 least greatest bits count byte bytes h ih => simp only [List.length_cons]; omega
  | case4 => simp

/-- The character that stands for what cannot be read. -/
def replacement : Char := '\uFFFD'

/-- Reads bytes as UTF-8, with U+FFFD for every maximal part that is none. -/
def decodeLossy : List UInt8 → List Char
  | [] => []
  | byte :: bytes =>
    match Lead.ofByte? byte with
    | none => replacement :: decodeLossy bytes
    | some lead =>
      let result := completeChar lead.least lead.greatest lead.bits lead.count bytes
      (result.1.map Char.ofNat).getD replacement :: decodeLossy result.2
termination_by bytes => bytes.length
decreasing_by
  · simp
  · have := length_completeChar lead.least lead.greatest lead.bits lead.count bytes
    simp only [List.length_cons]
    omega

end TreeShell.Text
