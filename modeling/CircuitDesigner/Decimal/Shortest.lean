/-! Shortest decimals: the fewest digits that read back to a given double, and of those the nearest.

    A finite double is `mantissa * 2 ^ power`. The reals that round to it form an interval around it,
    whose ends belong to it when the mantissa is even. For one digit, two digits and so on, the two
    points of that decimal grid beside the double are tested; the first grid with a point in the interval
    is taken. -/

namespace CircuitDesigner.Decimal

/-- A positive number `digits * 10 ^ exponent`. -/
structure Scientific where
  digits : Nat
  exponent : Int
  deriving DecidableEq, Repr

/-- A ratio of natural numbers, as a point on the decimal grid with unit `10 ^ exponent`. -/
structure Ratio where
  num : Nat
  den : Nat

/-- `n * 2 ^ power` in units of `10 ^ exponent`. -/
def Ratio.ofGrid (n : Nat) (power exponent : Int) : Ratio where
  num := n * Nat.pow 2 power.toNat * Nat.pow 10 (-exponent).toNat
  den := Nat.pow 2 (-power).toNat * Nat.pow 10 exponent.toNat

/-- The reals around a double that round to it, in quarters of its last place. -/
structure Interval where
  low : Nat
  center : Nat
  high : Nat
  /-- The ends belong to it. -/
  inclusive : Bool
  power : Int

/-- The interval of `mantissa * 2 ^ power`. Below the least mantissa of a binade the doubles lie twice
    as close, unless the binade is the lowest one. -/
def Interval.around (mantissa : Nat) (power : Int) : Interval where
  low := if mantissa = Nat.pow 2 52 ∧ power > -1074 then 4 * mantissa - 1 else 4 * mantissa - 2
  center := 4 * mantissa
  high := 4 * mantissa + 2
  inclusive := mantissa % 2 = 0
  power := power - 2

/-- The point `c` of the grid with unit `10 ^ exponent` lies in the interval. -/
def Interval.contains (i : Interval) (c : Nat) (exponent : Int) : Bool :=
  let low := Ratio.ofGrid i.low i.power exponent
  let high := Ratio.ofGrid i.high i.power exponent
  if i.inclusive then low.num ≤ c * low.den && c * high.den ≤ high.num
  else low.num < c * low.den && c * high.den < high.num

/-- The point of the grid in the interval that is nearest to its center, if there is one. -/
def Interval.nearest? (i : Interval) (exponent : Int) : Option Nat :=
  let center := Ratio.ofGrid i.center i.power exponent
  let below := center.num / center.den
  let above := below + 1
  match i.contains below exponent, i.contains above exponent with
  | true, true =>
    let rest := 2 * (center.num - below * center.den)
    if rest < center.den ∨ (rest = center.den ∧ below % 2 = 0) then some below else some above
  | true, false => some below
  | false, true => some above
  | false, false => none

/-- The exponent of the first digit of `mantissa * 2 ^ power`. -/
def leadingExponent (mantissa : Nat) (power : Int) : Int :=
  let guess := ((mantissa.log2 : Int) + power) * 30103 / 100000
  let next := Ratio.ofGrid mantissa power (guess + 1)
  if next.num < next.den then guess else guess + 1

/-- The number without its trailing zeros. `fuel` bounds their count. -/
def Scientific.strip : Nat → Scientific → Scientific
  | 0, s => s
  | fuel + 1, s =>
    if s.digits ≠ 0 ∧ s.digits % 10 = 0 then strip fuel ⟨s.digits / 10, s.exponent + 1⟩ else s

/-- The first grid point in the interval among the grids of `count`, `count + 1`, ... digits. -/
def Interval.search (i : Interval) (leading : Int) (count : Nat) : Nat → Option Scientific
  | 0 => none
  | fuel + 1 =>
    let exponent := leading - count + 1
    match i.nearest? exponent with
    | some c => some ⟨c, exponent⟩
    | none => i.search leading (count + 1) fuel

/-- The shortest decimal of a positive finite double, which seventeen digits always give. -/
def shortest (mantissa : Nat) (power : Int) : Scientific :=
  let i := Interval.around mantissa power
  ((i.search (leadingExponent mantissa power) 1 17).getD ⟨mantissa, power⟩).strip 17

/-- Mantissa and power of the bits of a positive finite double. -/
def ofBits (bits : Nat) : Nat × Int :=
  let exponent : Nat := bits / Nat.pow 2 52 % Nat.pow 2 11
  let fraction : Nat := bits % Nat.pow 2 52
  if exponent = 0 then (fraction, -1074) else (Nat.pow 2 52 + fraction, (exponent : Int) - 1075)

/-- Where a layout of decimals changes to scientific notation. -/
structure Layout where
  /-- The lowest exponent of the first digit that is written with the point in place. -/
  least : Int
  /-- The highest such exponent. -/
  greatest : Int

/-- The digits with the point in place, at least one digit on either side of it. -/
def positional (digits : List Char) (leading : Int) : List Char :=
  if leading < 0 then
    "0.".toList ++ List.replicate ((-leading).toNat - 1) '0' ++ digits
  else
    let whole := leading.toNat + 1
    let padded := digits ++ List.replicate (whole + 1 - digits.length) '0'
    padded.take whole ++ '.' :: padded.drop whole

/-- One digit before the point, no point after a lone digit, and a signed exponent. -/
def scientific (digits : List Char) (leading : Int) : List Char :=
  let sign := if leading < 0 then '-' else '+'
  let fraction := match digits.drop 1 with
    | [] => []
    | rest => '.' :: rest
  digits.take 1 ++ fraction ++ 'e' :: sign :: Nat.toDigits 10 leading.natAbs

/-- The text of a finite double. -/
def format (layout : Layout) (x : Float) : String :=
  let bits := x.toBits.toNat
  let sign := if Nat.pow 2 63 ≤ bits then ['-'] else []
  let magnitude := bits % Nat.pow 2 63
  if magnitude = 0 then String.ofList (sign ++ "0.0".toList)
  else
    let (mantissa, power) := ofBits magnitude
    let s := shortest mantissa power
    let digits := Nat.toDigits 10 s.digits
    let leading := s.exponent + digits.length - 1
    let body :=
      if layout.least ≤ leading ∧ leading ≤ layout.greatest then positional digits leading
      else scientific digits leading
    String.ofList (sign ++ body)

end CircuitDesigner.Decimal
