/-
Module: CanvasExport.Json.Skip
Layer: Json
Purpose: Values that nobody reads. A member with an unknown name is passed over whatever its value is and
  however deep it nests; the value must be well formed, but its numbers may be out of range. The open
  brackets are a list, so the nesting costs no recursion.
Main exports: Json.Frame, Json.skipNumeral, Json.skipValue
-/
import CanvasExport.Json.Reader

namespace CanvasExport.Json

/-- An open bracket. -/
inductive Frame where
  | list
  | object
deriving DecidableEq, Repr, Inhabited

namespace Frame

/-- The bracket that ends the frame. -/
def closing : Frame → Char
  | .list => ']'
  | .object => '\x7d'

/-- What is wrong where neither a comma nor the closing bracket stands. -/
def separatorExpected : Frame → Cause
  | .list => .commaOrBracketExpected
  | .object => .commaOrBraceExpected

/-- What is wrong where the text ends inside the frame. -/
def unfinished : Frame → Cause
  | .list => .endInList
  | .object => .endInObject

end Frame

def skipDigits : Reader Unit :=
  modify fun t => t.dropWhile Char.isDigit

/-- Takes the exponent of a number from behind its `e`. -/
def skipExponent : Reader Unit := do
  match ← peek with
  | some '+' | some '-' => skip
  | _ => pure ()
  match ← peek with
  | some c => if c.isDigit then skipDigits else failNext .invalidNumber
  | none => failHere .invalidNumber

/-- Takes what follows the integer part of a number. -/
def skipFraction : Reader Unit := do
  match ← peek with
  | some '.' =>
    skip
    match ← peek with
    | some c => if c.isDigit then skipDigits else failNext .invalidNumber
    | none => failHere .invalidNumber
    match ← peek with
    | some 'e' | some 'E' => skip; skipExponent
    | _ => pure ()
  | some 'e' | some 'E' => skip; skipExponent
  | _ => pure ()

/-- Takes a number from behind its sign. -/
def skipNumeral : Reader Unit := do
  match ← peek with
  | some '0' =>
    skip
    match ← peek with
    | some c => if c.isDigit then failNext .invalidNumber else skipFraction
    | none => skipFraction
  | some c =>
    if c.isDigit then
      skipDigits
      skipFraction
    else
      failNext .invalidNumber
  | none => failHere .invalidNumber

/-- Takes a value that holds no others, or the bracket that opens one that may. -/
def skipScalar : Reader (Option Frame) := do
  match ← peekToken with
  | none => failHere .endInValue
  | some 'n' => skip; readKeyword "ull".toList; return none
  | some 't' => skip; readKeyword "rue".toList; return none
  | some 'f' => skip; readKeyword "alse".toList; return none
  | some '-' => skip; skipNumeral; return none
  | some '"' => skip; skipString; return none
  | some '[' => skip; return some .list
  | some '\x7b' => skip; return some .object
  | some c =>
    if c.isDigit then
      skipNumeral
      return none
    else
      failNext .valueExpected

/-- Takes the brackets that close open frames, and the comma in front of a next value. `comma` says whether a
    value precedes; behind an opening bracket the next value may follow at once. -/
def skipClosings (comma : Bool) : List Frame → Reader (List Frame)
  | [] => return []
  | frame :: outer => do
    match ← peekToken with
    | none => failHere frame.unfinished
    | some c =>
      if c = frame.closing then
        skip
        skipClosings true outer
      else if !comma then
        return frame :: outer
      else if c = ',' then
        skip
        return frame :: outer
      else
        failNext frame.separatorExpected

/-- Takes a key and its colon. -/
def skipKey : Reader Unit := do
  match ← peekToken with
  | some '"' => skip; skipString
  | some _ => failNext .keyNotString
  | none => failHere .endInObject
  match ← peekToken with
  | some ':' => skip
  | some _ => failNext .colonExpected
  | none => failHere .endInObject

/-- Takes values until no frame is open. Each turn takes at least one character, so `fuel` need not exceed
    the length of the text. -/
def skipValues : (fuel : Nat) → List Frame → Reader Unit
  | 0, _ => failHere .endInValue
  | fuel + 1, frames => do
    let opened ← skipScalar
    match ← skipClosings opened.isNone (opened.toList ++ frames) with
    | [] => pure ()
    | frame :: outer =>
      match frame with
      | .object => skipKey
      | .list => pure ()
      skipValues fuel (frame :: outer)

/-- Takes one value. -/
def skipValue : Reader Unit := do
  skipValues ((← get).length + 1) []

end CanvasExport.Json
