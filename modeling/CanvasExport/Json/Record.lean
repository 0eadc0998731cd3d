/-
Module: CanvasExport.Json.Record
Layer: Json
Purpose: Typed values of a configuration text, up to whole records. A record is written as an object, in which
  every field may be missing and unknown members are passed over, or as a list of its fields in order, of
  which the last ones may be missing. Missing fields keep what they hold in the record one starts from.
Main exports: Json.readText, Json.readBool, Json.readWord, Json.readChoice, Json.readMembers, Json.Field,
  Json.readRecord, Json.parse
-/
import CanvasExport.Json.Numeral
import CanvasExport.Json.Skip

namespace CanvasExport.Json

/-- Takes the value at the head of the text, which is of the wrong kind, and says what it is. Lists and
    objects stay unread. -/
def readFound : Reader Found := do
  match ← peek with
  | some 'n' => skip; readKeyword "ull".toList; return .null
  | some 't' => skip; readKeyword "rue".toList; return .boolean true
  | some 'f' => skip; readKeyword "alse".toList; return .boolean false
  | some '-' => skip; return (← readNumeral true).found
  | some '"' => skip; return .string (← readString)
  | some '[' => return .sequence
  | some '\x7b' => return .map
  | some c => if c.isDigit then return (← readNumeral false).found else failNext .valueExpected
  | none => failHere .valueExpected

/-- Fails for the kind of the value at the head of the text. -/
def failType {α : Type} (wanted : Text) : Reader α := do
  let found ← readFound
  failHere (.invalidType found wanted)

/-- The character that a value starts with; the text must not end before it. -/
def peekValue : Reader Char := do
  match ← peekToken with
  | some c => return c
  | none => failHere .endInValue

/-- A string. -/
def readText : Reader Text := do
  if (← peekValue) = '"' then
    skip
    readString
  else
    failType "a string".toList

/-- A truth value. -/
def readBool : Reader Bool := do
  match ← peekValue with
  | 't' => skip; readKeyword "rue".toList; return true
  | 'f' => skip; readKeyword "alse".toList; return false
  | _ => failType "a boolean".toList

/-- A natural number of 32 bits, written without fraction and exponent. -/
def readWord : Reader UInt32 := do
  let wanted := "u32".toList
  let c ← peekValue
  let numeral ←
    if c = '-' then
      skip
      readNumeral true
    else if c.isDigit then
      readNumeral false
    else
      failType wanted
  match numeral with
  | .natural n => if n ≤ 0xFFFFFFFF then return UInt32.ofNat n else failHere (.invalidValue n wanted)
  | .negative n => failHere (.invalidValue (-(n : Int)) wanted)
  | .floating shown => failHere (.invalidType (.floating shown) wanted)

/-- The value `null`. -/
def readNull : Reader Unit := do
  if (← peekValue) = 'n' then
    skip
    readKeyword "ull".toList
  else
    failType "unit".toList

/-- The colon between a key and its value. -/
def readColon : Reader Unit := do
  match ← peekToken with
  | some ':' => skip
  | some _ => failNext .colonExpected
  | none => failHere .endInObject

/-- The key of the next member, or `none` in front of the closing brace, which stays. -/
def nextKey? (first : Bool) : Reader (Option Text) := do
  match ← peekToken with
  | none => failHere .endInObject
  | some '\x7d' => return none
  | some '"' => if first then skip; return some (← readString) else failNext .commaOrBraceExpected
  | some c =>
    if first then
      failNext .keyNotString
    else if c = ',' then
      skip
      match ← peekToken with
      | some '"' => skip; return some (← readString)
      | some '\x7d' => failNext .trailingComma
      | some _ => failNext .keyNotString
      | none => failHere .endInValue
    else
      failNext .commaOrBraceExpected

/-- The choice that a string names. -/
def chosen {α : Type} (choices : List (Text × α)) (name : Text) : Reader α :=
  match choices.lookup name with
  | some value => return value
  | none => failHere (.unknownVariant name (choices.map Prod.fst))

/-- One of several named values, written as its name or as an object with the name as its only key. -/
def readChoice {α : Type} (choices : List (Text × α)) : Reader α := do
  match ← peekValue with
  | '"' => skip; chosen choices (← readString)
  | '\x7b' =>
    skip
    match ← nextKey? true with
    | none => failNext .valueExpected
    | some name =>
      let value ← chosen choices name
      readColon
      readNull
      match ← peekToken with
      | some '\x7d' => skip; return value
      | some _ => failHere .valueExpected
      | none => failHere .endInObject
  | _ => failNext .valueExpected

/-- Whether another item follows; if not, the closing bracket stays. -/
def nextItem (first : Bool) : Reader Bool := do
  match ← peekToken with
  | none => failHere .endInList
  | some ']' => return false
  | some c =>
    if first then
      return true
    else if c = ',' then
      skip
      match ← peekToken with
      | some ']' => failNext .trailingComma
      | some _ => return true
      | none => failHere .endInValue
    else
      failNext .commaOrBracketExpected

/-- The bracket that must close a list whose items are all read. -/
def closeList : Reader Unit := do
  match ← peekToken with
  | some ']' => skip
  | some ',' =>
    skip
    match ← peekToken with
    | some ']' => failNext .trailingComma
    | _ => failNext .trailingCharacters
  | some _ => failNext .trailingCharacters
  | none => failHere .endInList

/-- The members of an object from behind its brace, each handled by its key; the closing brace is taken. Each
    member takes characters, so `fuel` need not exceed the length of the text. -/
def readMembersFrom {σ : Type} (member : σ → Text → Reader σ) :
    (fuel : Nat) → (first : Bool) → σ → Reader σ
  | 0, _, _ => failHere .endInObject
  | fuel + 1, first, s => do
    match ← nextKey? first with
    | none => skip; return s
    | some key => readMembersFrom member fuel false (← member s key)

/-- The members of an object whose brace has been taken. -/
def readMembers {σ : Type} (member : σ → Text → Reader σ) (s : σ) : Reader σ := do
  readMembersFrom member ((← get).length + 1) true s

/-- One field of a record: its name, and how its value is read into the record. -/
structure Field (σ : Type) where
  name : Text
  read : σ → Reader σ

/-- Fails for a field that occurs twice. The place lies behind the blanks that follow the key, and behind a
    brace that stands there. -/
def failDuplicate {α : Type} (name : Text) : Reader α := do
  match ← peekToken with
  | some '\x7d' => skip
  | _ => pure ()
  failHere (.duplicateField name)

/-- Reads one member of a record. The names read so far go with the record. -/
def readField {σ : Type} (fields : List (Field σ)) (state : σ × List Text) (key : Text) :
    Reader (σ × List Text) := do
  match fields.find? fun field => field.name = key with
  | none =>
    readColon
    skipValue
    return state
  | some field =>
    if state.2.contains key then
      failDuplicate key
    else
      readColon
      return (← field.read state.1, key :: state.2)

/-- The items of a list as fields in order. -/
def readItems {σ : Type} (first : Bool) (s : σ) : List (Field σ) → Reader σ
  | [] => return s
  | field :: fields => do
    if ← nextItem first then
      readItems false (← field.read s) fields
    else
      return s

/-- A record, starting from `s`. -/
def readRecord {σ : Type} (wanted : Text) (fields : List (Field σ)) (s : σ) : Reader σ := do
  match ← peekValue with
  | '[' =>
    skip
    let record ← readItems true s fields
    closeList
    return record
  | '\x7b' =>
    skip
    return (← readMembers (readField fields) (s, [])).1
  | _ => failType wanted

/-- The value of a whole text. -/
def parse {α : Type} (read : Reader α) (t : Text) : Except Error α :=
  let whole : Reader α := do
    let value ← read
    match ← peekToken with
    | none => return value
    | some _ => failNext .trailingCharacters
  match whole t with
  | .ok (value, _) => .ok value
  | .error fault => .error (fault.locate t)

end CanvasExport.Json
