/-!
# The shortest decimal of a double

Every decimal number that lies close enough to a double reads back as that double. Among these the
shortest one is taken: a multiple of the largest power of ten that has a multiple in the interval.
Of two such multiples the nearer one counts, and of two equally near ones the larger.
-/

namespace TreeShell.Decimal

/-- A double greater than zero with the interval of the numbers that read back as it, all four over
the denominator `den`. -/
structure Interval where
  /-- The lower end. -/
  low : Nat
  /-- The double itself. -/
  mid : Nat
  /-- The upper end. -/
  high : Nat
  /-- The common denominator. -/
  den : Nat
  /-- Whether the ends read back as the double too. -/
  closed : Bool

/-- The interval of the double `m * 2 ^ q`. Its neighbours are one unit `2 ^ q` away, and the lower
one only half a unit when `m` is the least significand of an exponent that is not the least. -/
def Interval.ofBinary (m : Nat) (q : Int) : Interval :=
  let below := if m = Nat.pow 2 52 ∧ q > -1074 then 1 else 2
  let scale (n : Nat) := if q ≥ 2 then n * Nat.pow 2 (q - 2).toNat else n
  { low := scale (4 * m - below)
    mid := scale (4 * m)
    high := scale (4 * m + 2)
    den := if q ≥ 2 then 1 else Nat.pow 2 (2 - q).toNat
    closed := m % 2 = 0 }

/-- Whether `digits * num / unit` lies in the interval, where `num / unit` is a power of ten. -/
def Interval.holds (i : Interval) (digits num unit : Nat) : Bool :=
  let x := digits * num * i.den
  if i.closed then i.low * unit ≤ x && x ≤ i.high * unit
  else i.low * unit < x && x < i.high * unit

/-- The multiple of `10 ^ k` that lies in the interval and is nearest to the double. -/
def Interval.multiple? (i : Interval) (k : Int) : Option Nat :=
  let (num, unit) := if k ≥ 0 then (Nat.pow 10 k.toNat, 1) else (1, Nat.pow 10 (-k).toNat)
  let below := i.mid * unit / (num * i.den)
  let above := below + 1
  match i.holds below num unit, i.holds above num unit with
  | true, true =>
    let distanceBelow := i.mid * unit - below * num * i.den
    let distanceAbove := above * num * i.den - i.mid * unit
    some (if distanceBelow < distanceAbove then below else above)
  | true, false => some below
  | false, true => some above
  | false, false => none

/-- The first of the exponents `k`, `k - 1`, … for which the interval holds a multiple of the power
of ten, with that multiple. -/
def Interval.search (i : Interval) (k : Int) : Nat → Nat × Int
  | 0 => (0, 0)
  | n + 1 =>
    match i.multiple? k with
    | some digits => if digits = 0 then i.search (k - 1) n else (digits, k)
    | none => i.search (k - 1) n

/-- The shortest decimal `digits * 10 ^ exponent` that reads back as the double `m * 2 ^ q`, which
is greater than zero. The powers of ten from `10 ^ 309` down to `10 ^ -325` are enough for every
double. -/
def shortest (m : Nat) (q : Int) : Nat × Int := (Interval.ofBinary m q).search 309 635

end TreeShell.Decimal
