/-!
# Decimal digits

The digits that a text starts with, and the number that digits denote.
-/

namespace TreeShell.Decimal

/-- The value of a digit. -/
def digitValue (digit : Char) : Nat := digit.toNat - '0'.toNat

/-- The number that digits denote. -/
def ofDigits (digits : List Char) : Nat := digits.foldl (fun n d => n * 10 + digitValue d) 0

/-- Splits the digits off that a text starts with. -/
def spanDigits (cs : List Char) : List Char × List Char :=
  (cs.takeWhile Char.isDigit, cs.dropWhile Char.isDigit)

theorem length_spanDigits (cs : List Char) : (spanDigits cs).2.length ≤ cs.length :=
  (List.dropWhile_sublist _).length_le

theorem length_spanDigits_of_ne_nil {cs : List Char} (h : (spanDigits cs).1.isEmpty = false) :
    (spanDigits cs).2.length < cs.length := by
  have hsplit : (spanDigits cs).1 ++ (spanDigits cs).2 = cs := List.takeWhile_append_dropWhile
  have hlength := congrArg List.length hsplit
  have hpos : 0 < (spanDigits cs).1.length := by
    cases hd : (spanDigits cs).1 with
    | nil => simp [hd] at h
    | cons => simp
  simp only [List.length_append] at hlength
  omega

end TreeShell.Decimal
