/-
Module: CanvasExport.Json.Numeral
Layer: Json
Purpose: The numbers of a configuration text. An integer that fits 64 bits keeps its value; every other
  number is floating point: its significand is cut to what fits 64 bits, and the power of ten is applied to
  that. A number too large for floating point is refused, one too small is zero.
Main exports: Json.Numeral, Json.readNumeral
-/
import CanvasExport.Decimal.Shortest
import CanvasExport.Json.Reader

namespace CanvasExport.Json

/-- A number as it is read. -/
inductive Numeral where
  | natural (n : Nat)
  /-- The number below zero with this magnitude. -/
  | negative (n : Nat)
  | floating (shown : Text)
deriving DecidableEq, Repr, Inhabited

namespace Numeral

/-- What the number is called where another kind of value is wanted. -/
def found : Numeral → Found
  | .natural n => .integer n
  | .negative n => .integer (-(n : Int))
  | .floating shown => .floating shown

end Numeral

/-- Floating point numbers in messages: positional from `0.00001` up to sixteen digits before the point. -/
def floatFormat : FloatFormat := ⟨-5, 15⟩

/-- The largest significand and integer. -/
def greatestNatural : Nat := 0xFFFFFFFFFFFFFFFF

/-- The largest exponent that is read digit by digit. -/
def greatestExponent : Nat := 0x7FFFFFFF

def startsWithDigit (t : Text) : Bool :=
  t.head?.any Char.isDigit

/-- A number extended by the digits at the head of the text while it does not exceed `limit`; with it the
    number of digits taken and the text behind them. -/
def takeDigits (limit n : Nat) : Text → Nat × Nat × Text
  | [] => (n, 0, [])
  | c :: rest =>
    let longer := n * 10 + Text.digitValue c
    if c.isDigit && longer ≤ limit then
      let (value, taken, after) := takeDigits limit longer rest
      (value, taken + 1, after)
    else
      (n, 0, c :: rest)

def powerOfTen (n : Nat) : Float :=
  OfScientific.ofScientific 1 false n

/-- Division by a power of ten in steps that stay in range; nothing changes once zero is reached. -/
def divideByPower (x : Float) (n : Nat) : Float :=
  if n ≤ 308 then x / powerOfTen n
  else if x == 0 then x
  else divideByPower (x / powerOfTen 308) (n - 308)
termination_by n

/-- The significand times the power of ten; `none` if that is out of range. -/
def scaled? (significand : Nat) (exponent : Int) : Option Float :=
  let x := (UInt64.ofNat significand).toFloat
  if exponent < 0 then
    some (divideByPower x exponent.natAbs)
  else if exponent ≤ 308 then
    let y := x * powerOfTen exponent.toNat
    if y.isInf then none else some y
  else if x == 0 then
    some x
  else
    none

/-- The floating point number with the given parts. -/
def floatingNumeral (negative : Bool) (significand : Nat) (exponent : Int) : Reader Numeral := do
  match scaled? significand exponent with
  | some x =>
    let x := if negative then -x else x
    return .floating (floatFormat.render (.ofFloat x))
  | none => failHere .numberOutOfRange

/-- The rest of a number after its `e`. -/
def readExponent (negative : Bool) (significand : Nat) (exponent : Int) : Reader Numeral := do
  let positive ← match ← peek with
    | some '+' => skip; pure true
    | some '-' => skip; pure false
    | _ => pure true
  match ← peek with
  | none => failHere .endInValue
  | some c =>
    if !c.isDigit then
      failNext .invalidNumber
    else
      let (value, _, after) := takeDigits greatestExponent 0 (← get)
      set after
      if startsWithDigit after then
        if significand ≠ 0 && positive then
          failNext .numberOutOfRange
        else
          modify fun t => t.dropWhile Char.isDigit
          return .floating (floatFormat.render (.ofFloat (if negative then -0.0 else 0.0)))
      else
        floatingNumeral negative significand (if positive then exponent + value else exponent - value)

/-- The end of a number with a fraction or an over-long integer part. -/
def finishFloating (negative : Bool) (significand : Nat) (exponent : Int) : Reader Numeral := do
  match ← peek with
  | some 'e' | some 'E' => skip; readExponent negative significand exponent
  | _ => floatingNumeral negative significand exponent

/-- The rest of a number after its point, which needs a digit. -/
def readFraction (negative : Bool) (significand : Nat) (exponent : Int) : Reader Numeral := do
  let (value, taken, after) := takeDigits greatestNatural significand (← get)
  set after
  if startsWithDigit after then
    modify fun t => t.dropWhile Char.isDigit
    finishFloating negative value (exponent - taken)
  else if taken = 0 then
    match ← peek with
    | none => failHere .endInValue
    | some _ => failNext .invalidNumber
  else
    finishFloating negative value (exponent - taken)

/-- The rest of a number after an integer part that fits. -/
def finishInteger (negative : Bool) (significand : Nat) : Reader Numeral := do
  match ← peek with
  | some '.' => skip; readFraction negative significand 0
  | some 'e' | some 'E' => skip; readExponent negative significand 0
  | _ =>
    if !negative then
      return .natural significand
    else if 0 < significand && significand ≤ 0x8000000000000000 then
      return .negative significand
    else
      floatingNumeral true significand 0

/-- The number at the head of the text, behind its sign. No integer part starts with a needless zero. -/
def readNumeral (negative : Bool) : Reader Numeral := do
  match ← get with
  | [] => failHere .endInValue
  | '0' :: rest =>
    skip
    if startsWithDigit rest then failNext .invalidNumber else finishInteger negative 0
  | c :: rest =>
    if !c.isDigit then
      failNext .invalidNumber
    else
      let (value, _, after) := takeDigits greatestNatural 0 (c :: rest)
      set after
      if startsWithDigit after then
        let further := after.takeWhile Char.isDigit
        set (after.drop further.length)
        match ← peek with
        | some '.' => skip; readFraction negative value further.length
        | _ => finishFloating negative value further.length
      else
        finishInteger negative value

end CanvasExport.Json
