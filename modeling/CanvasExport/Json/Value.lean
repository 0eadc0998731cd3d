/-
Module: CanvasExport.Json.Value
Layer: Json
Purpose: JSON values and their two written forms: compact, without any blank, and indented by two spaces per
  level with one member or item on a line. Objects keep the order in which their members are given.
Main exports: Json, Json.compact, Json.indented
-/
import CanvasExport.Text.Escaped

namespace CanvasExport

/-- A JSON value; the numbers of this library are all natural. -/
inductive Json where
  | null
  | bool (b : Bool)
  | number (n : Nat)
  | string (t : Text)
  | array (items : List Json)
  | object (members : List (Text × Json))
deriving Repr, Inhabited

namespace Json

mutual

/-- The value without blanks. -/
def compact : Json → Text
  | .null => "null".toList
  | .bool b => Text.ofBool b
  | .number n => Text.numeral n
  | .string t => Text.literal t
  | .array items => ['['] ++ compactItems items ++ [']']
  | .object members => ['\x7b'] ++ compactMembers members ++ ['\x7d']

/-- The items with a comma between each two. -/
def compactItems : List Json → Text
  | [] => []
  | [item] => compact item
  | item :: next :: rest => compact item ++ [','] ++ compactItems (next :: rest)

/-- The members with a comma between each two. -/
def compactMembers : List (Text × Json) → Text
  | [] => []
  | [(key, value)] => Text.literal key ++ [':'] ++ compact value
  | (key, value) :: next :: rest =>
    Text.literal key ++ [':'] ++ compact value ++ [','] ++ compactMembers (next :: rest)

end

/-- A line feed and the indentation of a level. -/
def newLine (level : Nat) : Text :=
  '\n' :: List.replicate (2 * level) ' '

mutual

/-- The value with a line for each item and member; an empty array or object stays on its line. -/
def indented (level : Nat) : Json → Text
  | .null => "null".toList
  | .bool b => Text.ofBool b
  | .number n => Text.numeral n
  | .string t => Text.literal t
  | .array [] => ['[', ']']
  | .array (item :: rest) =>
    ['['] ++ newLine (level + 1) ++ indented (level + 1) item ++ indentedItems (level + 1) rest
      ++ newLine level ++ [']']
  | .object [] => ['\x7b', '\x7d']
  | .object ((key, value) :: rest) =>
    ['\x7b'] ++ newLine (level + 1) ++ Text.literal key ++ [':', ' '] ++ indented (level + 1) value
      ++ indentedMembers (level + 1) rest ++ newLine level ++ ['\x7d']

/-- The items after the first. -/
def indentedItems (level : Nat) : List Json → Text
  | [] => []
  | item :: rest => [','] ++ newLine level ++ indented level item ++ indentedItems level rest

/-- The members after the first. -/
def indentedMembers (level : Nat) : List (Text × Json) → Text
  | [] => []
  | (key, value) :: rest =>
    [','] ++ newLine level ++ Text.literal key ++ [':', ' '] ++ indented level value
      ++ indentedMembers level rest

end

end Json

end CanvasExport
