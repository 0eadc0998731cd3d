/-
Module: CanvasExport.Version.Parser
Layer: Version
Purpose: The written form of versions: three numbers between points, then a pre-release after a hyphen and
  build metadata after a plus sign. Numbers have no needless zero and fit 64 bits; nothing may stand
  before or after.
Main exports: Version.parse?
-/
import CanvasExport.Version.Basic

namespace CanvasExport.Version

/-- The number at the head of the text. -/
def parseNumber? (t : Text) : Option (Nat × Text) :=
  let digits := t.takeWhile Char.isDigit
  let value := Text.digitsValue digits
  match digits with
  | [] => none
  | '0' :: _ :: _ => none
  | _ => if value ≤ 0xFFFFFFFFFFFFFFFF then some (value, t.drop digits.length) else none

/-- Whether a character may stand in an identifier. -/
def isIdentifierChar (c : Char) : Bool :=
  c.isAlphanum || c == '-'

/-- The text at every point, taken apart. -/
def splitPoints : Text → List Text
  | [] => [[]]
  | c :: rest =>
    match splitPoints rest with
    | [] => [[c]]
    | first :: more => if c = '.' then [] :: first :: more else (c :: first) :: more

/-- The identifiers at the head of the text, of which there is at least one and none is empty or fails the
    test, and what follows them. -/
def parseIdentifiers? (valid : Text → Bool) (t : Text) : Option (List Text × Text) :=
  let run := t.takeWhile fun c => isIdentifierChar c || c == '.'
  let identifiers := splitPoints run
  if identifiers.all fun identifier => !identifier.isEmpty && valid identifier then
    some (identifiers, t.drop run.length)
  else
    none

/-- A numeric pre-release identifier has no needless zero. -/
def isPreIdentifier (identifier : Text) : Bool :=
  match identifier with
  | '0' :: _ :: _ => !isNumeric identifier
  | _ => true

/-- The identifiers behind an introducing character, or none if it is not there. -/
def parseSection? (intro : Char) (valid : Text → Bool) : Text → Option (List Text × Text)
  | [] => some ([], [])
  | c :: rest => if c = intro then parseIdentifiers? valid rest else some ([], c :: rest)

/-- The point between two numbers. -/
def parsePoint? : Text → Option Text
  | '.' :: rest => some rest
  | _ => none

/-- Reads a version that fills the text. -/
def parse? (t : Text) : Option Version := do
  let (major, t) ← parseNumber? t
  let (minor, t) ← parseNumber? (← parsePoint? t)
  let (patch, t) ← parseNumber? (← parsePoint? t)
  let (pre, t) ← parseSection? '-' isPreIdentifier t
  let (build, t) ← parseSection? '+' (fun _ => true) t
  if t.isEmpty then some ⟨major, minor, patch, pre, build⟩ else none

end CanvasExport.Version
