/-
Module: CanvasExport.Json.Reader
Layer: Json
Purpose: Readers of configuration texts. A reader takes what it needs from the head of the text and leaves the
  rest, or ends with a fault that names its place by the bytes that remain there. Two places matter: the one
  reached so far, and the one behind the next byte, where a byte that must not stand there is reported.
Main exports: Json.Reader, Json.failHere, Json.failNext, Json.peek, Json.skip, Json.skipBlanks,
  Json.readKeyword, Json.readString, Json.skipString
-/
import CanvasExport.Json.Fault

namespace CanvasExport.Json

/-- What is left to read is the state. -/
abbrev Reader := StateT Text (Except Fault)

/-- Fails at the place reached so far. -/
def failHere {α : Type} (cause : Cause) : Reader α :=
  fun t => .error ⟨cause, t.byteLength⟩

/-- Fails behind the next byte; at the end of the text that is the end. -/
def failNext {α : Type} (cause : Cause) : Reader α :=
  fun t => .error ⟨cause, t.byteLength - 1⟩

/-- The next character, which stays unread. -/
def peek : Reader (Option Char) :=
  fun t => .ok (t.head?, t)

/-- Takes the next character. -/
def skip : Reader Unit :=
  modify List.tail

/-- The four characters that may stand between tokens. -/
def isBlank (c : Char) : Bool :=
  c == ' ' || c == '\n' || c == '\t' || c == '\r'

def skipBlanks : Reader Unit :=
  modify fun t => t.dropWhile isBlank

/-- The next character behind blanks, which are taken. -/
def peekToken : Reader (Option Char) := do
  skipBlanks
  peek

/-- Takes the rest of a keyword, letter by letter. -/
def readKeyword : Text → Reader Unit
  | [] => pure ()
  | letter :: letters => do
    match ← peek with
    | none => failHere .endInValue
    | some c =>
      if c = letter then
        skip
        readKeyword letters
      else
        failNext .keywordBroken

/-- The four hexadecimal digits at the head of a text as a number; `none` if they are not there. -/
def fourDigits? : Text → Option Nat
  | a :: b :: c :: d :: _ => do
    let a ← Text.hexValue? a
    let b ← Text.hexValue? b
    let c ← Text.hexValue? c
    let d ← Text.hexValue? d
    return ((a * 16 + b) * 16 + c) * 16 + d
  | _ => none

/-- A fault at a place given by the text that follows it. -/
def faultAt (cause : Cause) (rest : Text) : Fault :=
  ⟨cause, rest.byteLength⟩

/-- Four hexadecimal digits at the head of the text. Four bytes are taken whether they are digits or not; if
    there are fewer, the text ends inside the string. -/
def hexEscape (t : Text) : Except Fault Nat :=
  match fourDigits? t with
  | some n => .ok n
  | none =>
    if t.byteLength < 4 then .error ⟨.endInString, 0⟩ else .error ⟨.invalidEscape, t.byteLength - 4⟩

/-- Whether the code unit is the first of a surrogate pair. -/
def isLeading (n : Nat) : Bool :=
  0xD800 ≤ n && n ≤ 0xDBFF

/-- Whether the code unit is the second of a surrogate pair. -/
def isTrailing (n : Nat) : Bool :=
  0xDC00 ≤ n && n ≤ 0xDFFF

/-- The character of a surrogate pair. -/
def pairedChar (leading trailing : Nat) : Char :=
  Char.ofNat ((leading - 0xD800) * 0x400 + (trailing - 0xDC00) + 0x10000)

/-- Takes one character of an escape that must continue a surrogate pair. -/
def pairPart (expected : Char) : Text → Except Fault Text
  | [] => .error ⟨.endInString, 0⟩
  | c :: rest =>
    if c = expected then .ok rest else .error ⟨.hexEscapeUnpaired, Text.byteLength (c :: rest) - 1⟩

/-- The character of an escape by code units, from behind its `u`, and the number of characters taken. A
    leading surrogate needs its trailing one right behind it. -/
def unicodeEscape (t : Text) : Except Fault (Char × Nat) := do
  let n ← hexEscape t
  let rest := t.drop 4
  if isTrailing n then
    throw (faultAt .loneSurrogate rest)
  else if isLeading n then
    let rest ← pairPart '\\' rest
    let rest ← pairPart 'u' rest
    let m ← hexEscape rest
    if isTrailing m then
      return (pairedChar n m, 10)
    else
      throw (faultAt .loneSurrogate (rest.drop 4))
  else
    return (Char.ofNat n, 4)

/-- The character that a one-letter escape stands for. -/
def shortEscape? : Char → Option Char
  | '"' => some '"'
  | '\\' => some '\\'
  | '/' => some '/'
  | 'b' => some '\x08'
  | 'f' => some '\x0c'
  | 'n' => some '\n'
  | 'r' => some '\r'
  | 't' => some '\t'
  | _ => none

/-- The character of an escape, from behind its backslash, and the number of characters taken. -/
def escape (t : Text) : Except Fault (Char × Nat) :=
  match t with
  | [] => .error ⟨.endInString, 0⟩
  | 'u' :: rest => (unicodeEscape rest).map fun (c, taken) => (c, taken + 1)
  | c :: _ =>
    match shortEscape? c with
    | some d => .ok (d, 1)
    | none => .error ⟨.invalidEscape, t.byteLength - 1⟩

/-- Whether a character must be escaped in strings for being a control. -/
def isControl (c : Char) : Bool :=
  c.toNat < 0x20

/-- The text of a string from behind its opening quote, and what follows the closing one. `pending` counts
    the characters that the last escape still covers. -/
def stringBody : (pending : Nat) → Text → Except Fault (Text × Text)
  | _, [] => .error ⟨.endInString, 0⟩
  | pending + 1, _ :: rest => stringBody pending rest
  | 0, c :: rest =>
    if c = '"' then
      .ok ([], rest)
    else if c = '\\' then do
      let (d, taken) ← escape rest
      let (body, after) ← stringBody taken rest
      return (d :: body, after)
    else if isControl c then
      .error (faultAt .controlCharacter rest)
    else do
      let (body, after) ← stringBody 0 rest
      return (c :: body, after)

/-- The text of a string whose opening quote has been taken. -/
def readString : Reader Text :=
  stringBody 0

/-- The number of characters that an escape takes in a string nobody reads: code units are not paired. -/
def skippedEscape (t : Text) : Except Fault Nat :=
  match t with
  | [] => .error ⟨.endInString, 0⟩
  | 'u' :: rest => (hexEscape rest).map fun _ => 5
  | c :: _ =>
    match shortEscape? c with
    | some _ => .ok 1
    | none => .error ⟨.invalidEscape, t.byteLength - 1⟩

/-- What follows a string nobody reads, from behind its opening quote. A control character is reported in
    front of it. -/
def skippedBody : (pending : Nat) → Text → Except Fault Text
  | _, [] => .error ⟨.endInString, 0⟩
  | pending + 1, _ :: rest => skippedBody pending rest
  | 0, c :: rest =>
    if c = '"' then
      .ok rest
    else if c = '\\' then do
      let taken ← skippedEscape rest
      skippedBody taken rest
    else if isControl c then
      .error (faultAt .controlCharacter (c :: rest))
    else
      skippedBody 0 rest

/-- Takes a string whose opening quote has been taken. -/
def skipString : Reader Unit :=
  fun t => (skippedBody 0 t).map fun rest => ((), rest)

end CanvasExport.Json
