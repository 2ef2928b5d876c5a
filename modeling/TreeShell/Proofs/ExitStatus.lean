import TreeShell.Proofs.Diagnostics

/-!
# The status that is asked for

`exit` reads its argument digit by digit and keeps the remainder modulo 256 of the number read so
far. At the end this is the least residue of the integer that the argument denotes, however long it
is, and a negative integer is counted back from 256. Nothing on the way is large: the same
computation in words of 32 bits never leaves their range.
-/

namespace TreeShell

/-! ## Words -/

namespace Word

/-- The product of two words, if it fits into one. -/
def mul? (a b : UInt32) : Option UInt32 :=
  if a.toNat * b.toNat < UInt32.size then some (a * b) else none

/-- The sum of two words, if it fits into one. -/
def add? (a b : UInt32) : Option UInt32 :=
  if a.toNat + b.toNat < UInt32.size then some (a + b) else none

/-- The difference of two words, if the second is not the larger one. -/
def sub? (a b : UInt32) : Option UInt32 :=
  if b.toNat ≤ a.toNat then some (a - b) else none

variable {a b : UInt32}

theorem exists_mul? (h : a.toNat * b.toNat < UInt32.size) :
    ∃ c, mul? a b = some c ∧ c.toNat = a.toNat * b.toNat := by
  refine ⟨a * b, if_pos h, ?_⟩
  rw [UInt32.toNat_mul]
  exact Nat.mod_eq_of_lt h

theorem exists_add? (h : a.toNat + b.toNat < UInt32.size) :
    ∃ c, add? a b = some c ∧ c.toNat = a.toNat + b.toNat := by
  refine ⟨a + b, if_pos h, ?_⟩
  rw [UInt32.toNat_add]
  exact Nat.mod_eq_of_lt h

theorem exists_sub? (h : b.toNat ≤ a.toNat) :
    ∃ c, sub? a b = some c ∧ c.toNat = a.toNat - b.toNat :=
  ⟨a - b, if_pos h, UInt32.toNat_sub_of_le a b (UInt32.le_iff_toNat_le.mpr h)⟩

end Word

namespace Command

/-! ## Numerals -/

/-- One or more decimal digits. -/
structure AreDigits (digits : List Char) : Prop where
  ne_nil : digits ≠ []
  between : ∀ d ∈ digits, '0' ≤ d ∧ d ≤ '9'

/-- A text is digits with a sign before them or without one; the sign makes it negative or not. -/
inductive Numeral : List Char → Bool → List Char → Prop where
  | unsigned {digits : List Char} (h : AreDigits digits) : Numeral digits false digits
  | plus {digits : List Char} (h : AreDigits digits) : Numeral ('+' :: digits) false digits
  | minus {digits : List Char} (h : AreDigits digits) : Numeral ('-' :: digits) true digits

/-- The integer that the digits of a numeral denote. -/
def integer (negative : Bool) (digits : List Char) : Int :=
  if negative then -(Decimal.ofDigits digits : Int) else Decimal.ofDigits digits

/-- The status of a numeral. -/
def numeralStatus (negative : Bool) (digits : List Char) : Nat :=
  if negative then (256 - remainder256 0 digits) % 256 else remainder256 0 digits

variable {text digits : List Char} {negative : Bool} {status : Nat}

theorem Numeral.areDigits (h : Numeral text negative digits) : AreDigits digits := by
  cases h with
  | unsigned h | plus h | minus h => exact h

theorem areDigits_iff :
    AreDigits digits ↔ ¬ (digits.isEmpty || !digits.all Char.isDigit) = true := by
  have hdigit (d : Char) : d.isDigit = true ↔ '0' ≤ d ∧ d ≤ '9' := by
    simp [Char.isDigit, Char.le_def]
  simp only [Bool.or_eq_true, not_or, List.isEmpty_iff, Bool.not_eq_true', Bool.not_eq_false,
    List.all_eq_true, hdigit]
  exact ⟨fun h => ⟨h.ne_nil, h.between⟩, fun h => ⟨h.1, h.2⟩⟩

/-- The status of digits behind a sign. -/
def digitsStatus? (negative : Bool) (digits : List Char) : Option Nat :=
  if digits.isEmpty || !digits.all Char.isDigit then none
  else some (numeralStatus negative digits)

theorem digitsStatus?_eq_some_iff :
    digitsStatus? negative digits = some status ↔
      AreDigits digits ∧ status = numeralStatus negative digits := by
  rw [areDigits_iff, digitsStatus?]
  split_ifs with hnone
  · exact iff_of_false (by simp) fun h => h.1 hnone
  · rw [Option.some.injEq, eq_comm]
    exact ⟨fun h => ⟨hnone, h⟩, fun h => h.2⟩

/-- A text opens with a sign, or all of it must be digits. -/
theorem exitStatus?_cases (text : List Char) :
    (∃ rest, text = '-' :: rest ∧ exitStatus? text = digitsStatus? true rest) ∨
    (∃ rest, text = '+' :: rest ∧ exitStatus? text = digitsStatus? false rest) ∨
    exitStatus? text = digitsStatus? false text := by
  by_cases hminus : ∃ rest, text = '-' :: rest
  · obtain ⟨rest, rfl⟩ := hminus
    exact Or.inl ⟨rest, rfl, rfl⟩
  by_cases hplus : ∃ rest, text = '+' :: rest
  · obtain ⟨rest, rfl⟩ := hplus
    exact Or.inr (Or.inl ⟨rest, rfl, rfl⟩)
  refine Or.inr (Or.inr ?_)
  rw [exitStatus?]
  · rfl
  · exact fun rest heq => hminus ⟨rest, heq⟩
  · exact fun rest heq => hplus ⟨rest, heq⟩

theorem AreDigits.not_sign {sign : Char} {rest : List Char} (h : AreDigits (sign :: rest))
    (hsign : sign = '-' ∨ sign = '+') : False := by
  obtain ⟨hdigit, -⟩ := List.forall_mem_cons.mp h.between
  rcases hsign with rfl | rfl
  · exact absurd hdigit (by decide)
  · exact absurd hdigit (by decide)

/-- Numerals have a status, and nothing else has one. -/
theorem exitStatus?_eq_some_iff :
    exitStatus? text = some status ↔
      ∃ negative digits, Numeral text negative digits ∧ status = numeralStatus negative digits := by
  constructor
  · intro h
    rcases exitStatus?_cases text with ⟨rest, rfl, htext⟩ | ⟨rest, rfl, htext⟩ | htext
    · rw [htext, digitsStatus?_eq_some_iff] at h
      exact ⟨true, rest, .minus h.1, h.2⟩
    · rw [htext, digitsStatus?_eq_some_iff] at h
      exact ⟨false, rest, .plus h.1, h.2⟩
    · rw [htext, digitsStatus?_eq_some_iff] at h
      exact ⟨false, text, .unsigned h.1, h.2⟩
  · rintro ⟨negative, digits, hnumeral, hstatus⟩
    cases hnumeral with
    | minus h => exact digitsStatus?_eq_some_iff.mpr ⟨h, hstatus⟩
    | plus h => exact digitsStatus?_eq_some_iff.mpr ⟨h, hstatus⟩
    | unsigned h =>
      rcases exitStatus?_cases text with ⟨rest, rfl, -⟩ | ⟨rest, rfl, -⟩ | htext
      · exact (h.not_sign (Or.inl rfl)).elim
      · exact (h.not_sign (Or.inr rfl)).elim
      · rw [htext]
        exact digitsStatus?_eq_some_iff.mpr ⟨h, hstatus⟩

theorem exitStatus?_eq_none_iff :
    exitStatus? text = none ↔ ¬ ∃ negative digits, Numeral text negative digits := by
  rw [Option.eq_none_iff_forall_ne_some]
  simp only [ne_eq, exitStatus?_eq_some_iff]
  constructor
  · rintro h ⟨negative, digits, hnumeral⟩
    exact h _ ⟨negative, digits, hnumeral, rfl⟩
  · rintro h status ⟨negative, digits, hnumeral, -⟩
    exact h ⟨negative, digits, hnumeral⟩

/-! ## Remainders -/

/-- The remainder that is kept is that of the number read so far. -/
theorem remainder256_mod (number : Nat) (digits : List Char) :
    remainder256 (number % 256) digits =
      digits.foldl (fun number d => number * 10 + Decimal.digitValue d) number % 256 := by
  induction digits generalizing number with
  | nil => rfl
  | cons d digits ih =>
    have hstep : (number % 256 * 10 + Decimal.digitValue d) % 256 =
        (number * 10 + Decimal.digitValue d) % 256 := by omega
    rw [List.foldl_cons, ← ih, ← hstep]
    rfl

theorem remainder256_eq (digits : List Char) :
    remainder256 0 digits = Decimal.ofDigits digits % 256 :=
  remainder256_mod 0 digits

theorem numeralStatus_eq (negative : Bool) (digits : List Char) :
    (numeralStatus negative digits : Int) = integer negative digits % 256 := by
  cases negative with
  | false =>
    show ((remainder256 0 digits : Nat) : Int) = (Decimal.ofDigits digits : Int) % 256
    rw [remainder256_eq]
    omega
  | true =>
    show (((256 - remainder256 0 digits) % 256 : Nat) : Int) =
      -(Decimal.ofDigits digits : Int) % 256
    rw [remainder256_eq]
    omega

/-! ## The computation in words -/

/-- One digit more, in words. -/
def stepWord? (acc : UInt32) (d : Char) : Option UInt32 := do
  let shifted ← Word.mul? acc 10
  let value ← Word.sub? d.val '0'.val
  let sum ← Word.add? shifted value
  return sum % 256

/-- The status of a numeral, computed in words. There is none if a result on the way is no word. -/
def numeralWord? (negative : Bool) (digits : List Char) : Option UInt32 := do
  let remainder ← digits.foldlM stepWord? 0
  if negative then
    let rest ← Word.sub? 256 remainder
    return rest % 256
  else return remainder

theorem exists_stepWord? {acc : UInt32} {d : Char} (hacc : acc.toNat < 256)
    (hd : '0' ≤ d ∧ d ≤ '9') :
    ∃ next, stepWord? acc d = some next ∧
      next.toNat = (acc.toNat * 10 + Decimal.digitValue d) % 256 := by
  have hten : (10 : UInt32).toNat = 10 := rfl
  have hzero : ('0'.val : UInt32).toNat = 48 := rfl
  have hlow : 48 ≤ d.val.toNat := UInt32.le_iff_toNat_le.mp hd.1
  have hhigh : d.val.toNat ≤ 57 := UInt32.le_iff_toNat_le.mp hd.2
  have hvalue : Decimal.digitValue d = d.val.toNat - 48 := rfl
  obtain ⟨shifted, hshifted, hshiftedNat⟩ := Word.exists_mul? (a := acc) (b := 10)
    (by rw [hten, UInt32.size]; omega)
  obtain ⟨value, hsub, hvalueNat⟩ := Word.exists_sub? (a := d.val) (b := '0'.val)
    (by rw [hzero]; exact hlow)
  rw [hten] at hshiftedNat
  rw [hzero, ← hvalue] at hvalueNat
  obtain ⟨sum, hsum, hsumNat⟩ := Word.exists_add? (a := shifted) (b := value)
    (by rw [UInt32.size]; omega)
  refine ⟨sum % 256, ?_, ?_⟩
  · simp only [stepWord?, hshifted, hsub, hsum, Option.bind_eq_bind, Option.bind_some,
      Option.pure_def]
  · rw [UInt32.toNat_mod, hsumNat, hshiftedNat, hvalueNat]
    rfl

/-- The words follow the remainders, which are small at every digit. -/
theorem exists_foldlM_stepWord? {acc : UInt32} (hacc : acc.toNat < 256) {digits : List Char}
    (h : ∀ d ∈ digits, '0' ≤ d ∧ d ≤ '9') :
    ∃ word, digits.foldlM stepWord? acc = some word ∧
      word.toNat = remainder256 acc.toNat digits := by
  induction digits generalizing acc with
  | nil => exact ⟨acc, rfl, rfl⟩
  | cons d digits ih =>
    obtain ⟨hd, hdigits⟩ := List.forall_mem_cons.mp h
    obtain ⟨next, hnext, hnextNat⟩ := exists_stepWord? hacc hd
    have hnextLt : next.toNat < 256 := by
      rw [hnextNat]
      exact Nat.mod_lt _ (by decide)
    obtain ⟨word, hword, hwordNat⟩ := ih hnextLt hdigits
    refine ⟨word, ?_, ?_⟩
    · rw [List.foldlM_cons, hnext]
      exact hword
    · rw [hwordNat, hnextNat]
      rfl

theorem exists_numeralWord? (negative : Bool) (h : AreDigits digits) :
    ∃ word, numeralWord? negative digits = some word ∧
      word.toNat = numeralStatus negative digits := by
  have hstart : (0 : UInt32).toNat < 256 := by decide
  obtain ⟨word, hword, hwordNat⟩ := exists_foldlM_stepWord? hstart h.between
  have hwordLt : word.toNat < 256 := by
    rw [hwordNat]
    exact remainder256_lt hstart digits
  have hfull : (256 : UInt32).toNat = 256 := rfl
  cases negative with
  | false =>
    refine ⟨word, ?_, hwordNat⟩
    rw [numeralWord?, hword]
    rfl
  | true =>
    obtain ⟨rest, hrest, hrestNat⟩ := Word.exists_sub? (a := 256) (b := word)
      (by rw [hfull]; omega)
    refine ⟨rest % 256, ?_, ?_⟩
    · rw [numeralWord?, hword]
      simp only [Option.bind_eq_bind, Option.bind_some, if_true, hrest, Option.pure_def]
    · rw [UInt32.toNat_mod, hrestNat, hwordNat]
      rfl

end Command

open Command

/-- An argument that is a numeral, white space around it left aside, makes `exit` ask for the least
residue modulo 256 of the integer that the numeral denotes, and the computation of this status in
words of 32 bits does not leave their range. Any other argument is complained of, and the status is
1; without an argument it is 0. In all cases it lies between 0 and 255. -/
theorem Exit.status_is_residue_of_argument (args : List String) :
    (args = [] → exit args = { status := 0, stdout := "Exiting shell\n" }) ∧
    (∀ arg rest, args = arg :: rest →
      let text := Text.trim arg.toList
      (∀ negative digits, Numeral text negative digits →
        exit args =
          { status := integer negative digits % 256
            stdout := "Exiting with code: " ++ String.ofList text ++ "\n" } ∧
        ∃ word, numeralWord? negative digits = some word ∧
          (word.toNat : Int) = integer negative digits % 256) ∧
      ((¬ ∃ negative digits, Numeral text negative digits) →
        exit args =
          { status := 1
            stderr := "exit: " ++ String.ofList text ++ ": numeric argument required\n" })) ∧
    0 ≤ (exit args).status ∧ (exit args).status ≤ 255 := by
  have hconsistent := consistent_exit args
  refine ⟨?_, ?_, hconsistent.status_nonneg, hconsistent.status_le⟩
  · rintro rfl
    rfl
  · rintro arg rest rfl text
    constructor
    · intro negative digits hnumeral
      have hstatus : exitStatus? text = some (numeralStatus negative digits) :=
        exitStatus?_eq_some_iff.mpr ⟨negative, digits, hnumeral, rfl⟩
      obtain ⟨word, hword, hwordNat⟩ := exists_numeralWord? negative hnumeral.areDigits
      rw [← numeralStatus_eq, ← hwordNat]
      refine ⟨?_, word, hword, rfl⟩
      rw [exit, hwordNat]
      simp only [hstatus, text]
    · intro hnone
      have hstatus : exitStatus? text = none := exitStatus?_eq_none_iff.mpr hnone
      rw [exit]
      simp only [hstatus, text]

/-- An integer with twenty digits and a sign, between blanks. -/
theorem Exit.long_negative_argument_wraps :
    Numeral "-99999999999999999999".toList true "99999999999999999999".toList ∧
      exit [" -99999999999999999999\t", "2"] =
        { status := 1, stdout := "Exiting with code: -99999999999999999999\n" } := by
  have hnumeral : Numeral "-99999999999999999999".toList true "99999999999999999999".toList :=
    .minus (areDigits_iff.mpr (by decide))
  have htext : Text.trim " -99999999999999999999\t".toList = "-99999999999999999999".toList := by
    decide +kernel
  have hall := (status_is_residue_of_argument [" -99999999999999999999\t", "2"]).2.1 _ _ rfl
  obtain ⟨hexit, -⟩ := hall.1 true "99999999999999999999".toList (by rw [htext]; exact hnumeral)
  have hresidue : integer true "99999999999999999999".toList % 256 = 1 := by decide +kernel
  rw [hresidue, htext] at hexit
  exact ⟨hnumeral, hexit⟩

end TreeShell
