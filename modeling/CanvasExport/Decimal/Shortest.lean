/-
Module: CanvasExport.Decimal.Shortest
Layer: Decimal
Purpose: The shortest decimal of a binary floating point number. Of all decimals that round to the number, the
  one with the fewest digits is taken, and of two of that length the nearer. The search is exact arithmetic
  on the number's integer significand and power of two.
Main exports: Binary, Binary.ofFloat, Decimal, Binary.shortest, FloatFormat, FloatFormat.render
-/
import CanvasExport.Text.Basic

namespace CanvasExport

/-- A finite number as an integer significand times a power of two. -/
structure Binary where
  negative : Bool
  significand : Nat
  exponent : Int
  /-- Whether the next smaller number is only half as far away as the next larger one. -/
  narrowBelow : Bool
deriving DecidableEq, Repr, Inhabited

/-- Digits times a power of ten. -/
structure Decimal where
  digits : Nat
  exponent : Int
deriving DecidableEq, Repr, Inhabited

namespace Binary

/-- The parts of a 64-bit number; infinities and NaN are not expected. -/
def ofFloat (x : Float) : Binary :=
  let bits := x.toBits.toNat
  let fraction : Nat := bits % Nat.pow 2 52
  let biased : Nat := bits / Nat.pow 2 52 % Nat.pow 2 11
  let negative := bits / Nat.pow 2 63 == 1
  if biased = 0 then
    ⟨negative, fraction, -1074, false⟩
  else
    ⟨negative, Nat.pow 2 52 + fraction, (biased : Int) - 1075, fraction == 0 && biased > 1⟩

/-- A positive rational with the interval of numbers that round to it, all over one denominator. -/
structure Interval where
  low : Nat
  value : Nat
  high : Nat
  denominator : Nat
  /-- Whether the ends round to the number too. -/
  closed : Bool

/-- The interval half way to the neighbours on either side, in quarters of the last place. A tie goes to the
    even significand. -/
def interval (x : Binary) : Interval :=
  let value := 4 * x.significand
  let low := value - if x.narrowBelow then 1 else 2
  let quarter := x.exponent - 2
  let up := Nat.pow 2 quarter.toNat
  let down := Nat.pow 2 (-quarter).toNat
  ⟨low * up, value * up, (value + 2) * up, down, x.significand % 2 == 0⟩

/-- The power of ten of the leading digit of a positive number. -/
def leadingExponent (r : Interval) : Int :=
  if r.denominator ≤ r.value then
    ((Nat.toDigits 10 (r.value / r.denominator)).length : Int) - 1
  else
    -(((List.range 400).find? fun j => r.denominator ≤ r.value * Nat.pow 10 j).getD 0 : Int)

/-- The decimal on the grid of a power of ten that lies in the interval, the nearer of the two neighbours of
    the value; at the same distance the even one. -/
def onGrid? (r : Interval) (exponent : Int) : Option Decimal :=
  let up := Nat.pow 10 (-exponent).toNat
  let unit := Nat.pow 10 exponent.toNat * r.denominator
  let value := r.value * up
  let low := r.low * up
  let high := r.high * up
  let inside := fun n : Nat =>
    let scaled := n * unit
    0 < n && if r.closed then low ≤ scaled && scaled ≤ high else low < scaled && scaled < high
  let below := value / unit
  let above := below + 1
  match inside below, inside above with
  | false, false => none
  | true, false => some ⟨below, exponent⟩
  | false, true => some ⟨above, exponent⟩
  | true, true =>
    let toBelow := value - below * unit
    let toAbove := above * unit - value
    let nearer :=
      if toBelow < toAbove then below
      else if toAbove < toBelow then above
      else if below % 2 = 0 then below else above
    some ⟨nearer, exponent⟩

/-- The first grid, from one digit to seventeen, that has a decimal in the interval. -/
def shortest (x : Binary) : Decimal :=
  if x.significand = 0 then
    ⟨0, 0⟩
  else
    let r := x.interval
    let leading := leadingExponent r
    ((List.range 17).findSome? fun (places : Nat) => onGrid? r (leading - places)).getD ⟨0, 0⟩

end Binary

/-- How floating point numbers are written: positionally while the leading digit's power of ten lies between
    two bounds, otherwise with an exponent. -/
structure FloatFormat where
  leastPositional : Int
  greatestPositional : Int
deriving DecidableEq, Repr, Inhabited

namespace FloatFormat

/-- The digits with a point after the first one, if more follow. -/
def pointAfterFirst : Text → Text
  | [] => []
  | [d] => [d]
  | d :: rest => d :: '.' :: rest

/-- The numeral of a number: positional numerals always have a point, exponents always a sign. -/
def render (format : FloatFormat) (x : Binary) : Text :=
  let decimal := x.shortest
  let written := Text.numeral decimal.digits
  let leading := decimal.exponent + written.length - 1
  let digits := match (written.reverse.dropWhile (· == '0')).reverse with
    | [] => ['0']
    | trimmed => trimmed
  let count : Int := digits.length
  let magnitude :=
    if leading < format.leastPositional || format.greatestPositional < leading then
      pointAfterFirst digits ++ ['e', if leading < 0 then '-' else '+'] ++ Text.numeral leading.natAbs
    else if leading < 0 then
      ['0', '.'] ++ List.replicate (-leading - 1).toNat '0' ++ digits
    else if count ≤ leading + 1 then
      digits ++ List.replicate (leading + 1 - count).toNat '0' ++ ['.', '0']
    else
      digits.take (leading + 1).toNat ++ ['.'] ++ digits.drop (leading + 1).toNat
  if x.negative then '-' :: magnitude else magnitude

end FloatFormat

end CanvasExport
