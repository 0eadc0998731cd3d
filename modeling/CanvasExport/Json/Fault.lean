/-
Module: CanvasExport.Json.Fault
Layer: Json
Purpose: What can be wrong with a configuration text. A cause says what was found or missing; a position is a
  line and the number of bytes read of it. Readers know only what they have not read yet, so a fault first
  carries the number of bytes that remain, and the position is found from it afterwards.
Main exports: Json.Found, Json.Cause, Json.Cause.message, Json.Fault, Json.Error, Json.Fault.locate
-/
import CanvasExport.Text.Shown

namespace CanvasExport.Json

/-- The kinds of value that stand where another kind is wanted. -/
inductive Found where
  | null
  | boolean (b : Bool)
  | integer (n : Int)
  /-- A number with a fraction or an exponent, or one that is too large, by its shortest numeral. -/
  | floating (shown : Text)
  | string (t : Text)
  | sequence
  | map
deriving DecidableEq, Repr, Inhabited

/-- Why a text is refused. -/
inductive Cause where
  | endInValue
  | endInList
  | endInObject
  | endInString
  | valueExpected
  | keywordBroken
  | colonExpected
  | commaOrBraceExpected
  | commaOrBracketExpected
  | keyNotString
  | trailingComma
  | trailingCharacters
  | invalidNumber
  | numberOutOfRange
  | invalidEscape
  | hexEscapeUnpaired
  | loneSurrogate
  | controlCharacter
  | duplicateField (name : Text)
  | unknownVariant (found : Text) (choices : List Text)
  | invalidType (found : Found) (wanted : Text)
  | invalidValue (found : Int) (wanted : Text)
deriving DecidableEq, Repr, Inhabited

/-- A name between backquotes. -/
def backquoted (t : Text) : Text :=
  ['\x60'] ++ t ++ ['\x60']

/-- The decimal numeral of an integer. -/
def integerNumeral (n : Int) : Text :=
  if n < 0 then '-' :: Text.numeral n.natAbs else Text.numeral n.natAbs

namespace Found

def text : Found → Text
  | .null => "null".toList
  | .boolean b => "boolean ".toList ++ backquoted (Text.ofBool b)
  | .integer n => "integer ".toList ++ backquoted (integerNumeral n)
  | .floating shown => "floating point ".toList ++ backquoted shown
  | .string t => "string ".toList ++ Text.shown t
  | .sequence => "sequence".toList
  | .map => "map".toList

end Found

/-- The choices of a variant: two are joined by a word, more are listed. -/
def choicesText (choices : List Text) : Text :=
  match choices.map backquoted with
  | [one] => one
  | [one, two] => one ++ " or ".toList ++ two
  | many => "one of ".toList ++ Text.joinWith ", ".toList many

namespace Cause

def message : Cause → Text
  | .endInValue => "EOF while parsing a value".toList
  | .endInList => "EOF while parsing a list".toList
  | .endInObject => "EOF while parsing an object".toList
  | .endInString => "EOF while parsing a string".toList
  | .valueExpected => "expected value".toList
  | .keywordBroken => "expected ident".toList
  | .colonExpected => "expected ".toList ++ backquoted [':']
  | .commaOrBraceExpected => "expected ".toList ++ backquoted [','] ++ " or ".toList ++ backquoted ['\x7d']
  | .commaOrBracketExpected => "expected ".toList ++ backquoted [','] ++ " or ".toList ++ backquoted [']']
  | .keyNotString => "key must be a string".toList
  | .trailingComma => "trailing comma".toList
  | .trailingCharacters => "trailing characters".toList
  | .invalidNumber => "invalid number".toList
  | .numberOutOfRange => "number out of range".toList
  | .invalidEscape => "invalid escape".toList
  | .hexEscapeUnpaired => "unexpected end of hex escape".toList
  | .loneSurrogate => "lone leading surrogate in hex escape".toList
  | .controlCharacter => "control character (\\u0000-\\u001F) found while parsing a string".toList
  | .duplicateField name => "duplicate field ".toList ++ backquoted name
  | .unknownVariant found choices =>
    "unknown variant ".toList ++ backquoted found ++ ", expected ".toList ++ choicesText choices
  | .invalidType found wanted => "invalid type: ".toList ++ found.text ++ ", expected ".toList ++ wanted
  | .invalidValue found wanted =>
    "invalid value: integer ".toList ++ backquoted (integerNumeral found) ++ ", expected ".toList ++ wanted

end Cause

/-- A cause and the number of bytes of the text that follow its place. -/
structure Fault where
  cause : Cause
  remaining : Nat
deriving DecidableEq, Repr, Inhabited

/-- A cause with its position: lines count from one, columns are the bytes read of the line. -/
structure Error where
  cause : Cause
  line : Nat
  column : Nat
deriving DecidableEq, Repr, Inhabited

namespace Error

def message (e : Error) : Text :=
  e.cause.message ++ " at line ".toList ++ Text.numeral e.line ++ " column ".toList ++ Text.numeral e.column

end Error

/-- The line and column after so many bytes of the text. A place may lie inside a character. -/
def positionAfter : (bytes line column : Nat) → Text → Nat × Nat
  | 0, line, column, _ => (line, column)
  | bytes, line, column, [] => (line, column + bytes)
  | bytes + 1, line, column, c :: rest =>
    if c = '\n' then
      positionAfter bytes (line + 1) 0 rest
    else
      positionAfter (bytes + 1 - c.utf8Size) line (column + min (bytes + 1) c.utf8Size) rest

/-- The error of a fault in the given text. -/
def Fault.locate (fault : Fault) (t : Text) : Error :=
  let position := positionAfter (t.byteLength - fault.remaining) 1 0 t
  ⟨fault.cause, position.1, position.2⟩

end CanvasExport.Json
