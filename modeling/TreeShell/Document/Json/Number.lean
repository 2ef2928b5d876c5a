import TreeShell.Decimal.Digits
import TreeShell.Decimal.Nearest
import TreeShell.Document.Event

/-!
# Numbers of JSON

A number has an integer part without superfluous zeros, and may have a fraction and an exponent. An
integer that fits 64 bits is an integer. Any other number is a double, and it is read as follows:
digits are taken into a 64-bit significand as long as they fit, further digits of the integer part
only raise the exponent, and further digits of the fraction are dropped. The significand is then
multiplied or divided by the power of ten, in doubles. This is not always the nearest double. A
number too large for a double is an error.
-/

namespace TreeShell.Document.Json

open Decimal (spanDigits length_spanDigits length_spanDigits_of_ne_nil)

/-- The digits of a number, in its parts. -/
structure NumberParts where
  /-- Whether a minus sign stands before the number. -/
  negative : Bool
  /-- The digits before the point. -/
  whole : List Char
  /-- The digits behind the point, if there is one. -/
  fraction : Option (List Char)
  /-- Whether the exponent is negative, and its digits, if there is one. -/
  exponent : Option (Bool × List Char)

/-- Splits a sign off that a text starts with, and says whether it is a minus sign. -/
def spanSign : List Char → Bool × List Char
  | '-' :: cs => (true, cs)
  | '+' :: cs => (false, cs)
  | cs => (false, cs)

/-- Splits a fraction off that a text starts with. A point must be followed by a digit. -/
def spanFraction? : List Char → Option (Option (List Char) × List Char)
  | '.' :: cs =>
    let (digits, rest) := spanDigits cs
    if digits.isEmpty then none else some (some digits, rest)
  | cs => some (none, cs)

/-- Splits the sign and the digits of an exponent off that a text starts with, behind its `e`. -/
def spanExponentDigits? (cs : List Char) : Option (Option (Bool × List Char) × List Char) :=
  let (negative, cs) := spanSign cs
  let (digits, rest) := spanDigits cs
  if digits.isEmpty then none else some (some (negative, digits), rest)

/-- Splits an exponent off that a text starts with. -/
def spanExponent? : List Char → Option (Option (Bool × List Char) × List Char)
  | 'e' :: cs => spanExponentDigits? cs
  | 'E' :: cs => spanExponentDigits? cs
  | cs => some (none, cs)

/-- Splits a number off that a text starts with, behind its sign. -/
def unsignedParts? (negative : Bool) (cs : List Char) : Option (NumberParts × List Char) :=
  let (whole, afterWhole) := spanDigits cs
  if whole.isEmpty || (whole.head? == some '0' && whole.length > 1) then none
  else
    (spanFraction? afterWhole).bind fun (fraction, afterFraction) =>
      (spanExponent? afterFraction).map fun (exponent, rest) =>
        ({ negative, whole, fraction, exponent }, rest)

/-- Splits a number off that a text starts with. -/
def numberParts? : List Char → Option (NumberParts × List Char)
  | '-' :: cs => unsignedParts? true cs
  | cs => unsignedParts? false cs

theorem length_spanSign (cs : List Char) : (spanSign cs).2.length ≤ cs.length := by
  unfold spanSign
  split <;> simp

theorem length_of_spanFraction {cs rest : List Char} {fraction : Option (List Char)}
    (h : spanFraction? cs = some (fraction, rest)) : rest.length ≤ cs.length := by
  unfold spanFraction? at h
  split at h
  · next cs =>
    have hdigits := length_spanDigits cs
    simp only [Option.ite_none_left_eq_some, Option.some.injEq, Prod.mk.injEq] at h
    obtain ⟨-, -, rfl⟩ := h
    simp only [List.length_cons]
    omega
  · simp_all

theorem length_of_spanExponentDigits {cs rest : List Char} {exponent : Option (Bool × List Char)}
    (h : spanExponentDigits? cs = some (exponent, rest)) : rest.length ≤ cs.length := by
  have := length_spanSign cs
  have := length_spanDigits (spanSign cs).2
  simp only [spanExponentDigits?] at h
  split at h
  · simp at h
  · simp only [Option.some.injEq, Prod.mk.injEq] at h
    obtain ⟨-, rfl⟩ := h
    omega

theorem length_of_spanExponent {cs rest : List Char} {exponent : Option (Bool × List Char)}
    (h : spanExponent? cs = some (exponent, rest)) : rest.length ≤ cs.length := by
  unfold spanExponent? at h
  split at h
  · have := length_of_spanExponentDigits h
    simp only [List.length_cons]
    omega
  · have := length_of_spanExponentDigits h
    simp only [List.length_cons]
    omega
  · simp_all

theorem length_of_unsignedParts {negative : Bool} {cs rest : List Char} {parts : NumberParts}
    (h : unsignedParts? negative cs = some (parts, rest)) : rest.length < cs.length := by
  simp only [unsignedParts?] at h
  split at h
  · simp at h
  · next hwhole =>
    simp only [Bool.or_eq_true, not_or, Bool.not_eq_true] at hwhole
    have hdigits := length_spanDigits_of_ne_nil hwhole.1
    simp only [Option.bind_eq_some_iff, Option.map_eq_some_iff, Prod.mk.injEq] at h
    obtain ⟨⟨fraction, afterFraction⟩, hfraction, ⟨exponent, last⟩, hexponent, -, rfl⟩ := h
    have hf : afterFraction.length ≤ (spanDigits cs).2.length := length_of_spanFraction hfraction
    have he : last.length ≤ afterFraction.length := length_of_spanExponent hexponent
    exact Nat.lt_of_le_of_lt (Nat.le_trans he hf) hdigits

/-- A number takes up at least one character. -/
theorem length_of_numberParts {cs rest : List Char} {parts : NumberParts}
    (h : numberParts? cs = some (parts, rest)) : rest.length < cs.length := by
  unfold numberParts? at h
  split at h
  · have := length_of_unsignedParts h
    simp only [List.length_cons]
    omega
  · exact length_of_unsignedParts h

/-- A number in the course of being read. -/
structure Significand where
  /-- The digits taken so far. -/
  value : Nat := 0
  /-- The power of ten that the digits are multiplied by. -/
  exponent : Int := 0
  /-- Whether a digit of the present part did not fit. -/
  full : Bool := false

/-- The number after one more digit, `none` if it would not fit 64 bits. -/
def appendDigit? (value : Nat) (digit : Char) : Option Nat :=
  let next := value * 10 + Decimal.digitValue digit
  if next < Nat.pow 2 64 then some next else none

/-- Takes a digit of the integer part. -/
def Significand.addWhole (s : Significand) (digit : Char) : Significand :=
  match s.full, appendDigit? s.value digit with
  | false, some value => { s with value }
  | _, _ => { s with exponent := s.exponent + 1, full := true }

/-- Takes a digit of the fraction. -/
def Significand.addFraction (s : Significand) (digit : Char) : Significand :=
  match s.full, appendDigit? s.value digit with
  | false, some value => { s with value, exponent := s.exponent - 1 }
  | _, _ => { s with full := true }

/-- The double `10 ^ n`. -/
def powerOfTen (n : Nat) : Float := Decimal.nearest 1 n

/-- The double `f` times a power of ten; `none` if it is too large for a double. The tenth powers
that are doubles end at 308, so a smaller exponent is worked off in several steps. -/
def scaleByTen? (f : Float) (exponent : Int) : Option Float :=
  if exponent > 308 then if f == 0 then some f else none
  else if exponent ≥ 0 then
    let scaled := f * powerOfTen exponent.toNat
    if scaled.isInf then none else some scaled
  else if exponent ≥ -308 then some (f / powerOfTen (-exponent).toNat)
  else if f == 0 then some f
  else scaleByTen? (f / powerOfTen 308) (exponent + 308)
termination_by (-exponent).toNat

/-- The value of an exponent, `none` if it does not fit 32 bits. -/
def exponentValue? (digits : List Char) : Option Nat :=
  let value := Decimal.ofDigits digits
  if value < Nat.pow 2 31 then some value else none

/-- The double that a significand, a sign and an exponent denote. -/
def float? (negative : Bool) (s : Significand) (exponent : Option (Bool × List Char)) :
    Option Float := do
  let signed (f : Float) : Float := if negative then -f else f
  let f := s.value.toUInt64.toFloat
  match exponent with
  | none => return signed (← scaleByTen? f s.exponent)
  | some (below, digits) =>
    match exponentValue? digits with
    | some n => return signed (← scaleByTen? f (s.exponent + if below then -(n : Int) else n))
    | none => if s.value ≠ 0 ∧ !below then none else return signed 0

/-- The scalar that the digits of a number denote. A negative zero is no integer. -/
def NumberParts.scalar? (parts : NumberParts) : Option Scalar :=
  let whole := parts.whole.foldl Significand.addWhole {}
  match parts.fraction, parts.exponent with
  | none, none =>
    if whole.full then (float? parts.negative whole none).map .float
    else if !parts.negative then some (.natural whole.value)
    else if 0 < whole.value ∧ whole.value ≤ Nat.pow 2 63 then some (.minus whole.value)
    else some (.float (-whole.value.toUInt64.toFloat))
  | fraction, exponent =>
    let s := (fraction.getD []).foldl Significand.addFraction { whole with full := false }
    (float? parts.negative s exponent).map .float

end TreeShell.Document.Json
