/-
Module: CanvasExport.Text.Bytes
Layer: Text
Purpose: Texts as the bytes of a name. Paths and arguments are byte sequences, and nothing says that they are the
  bytes of a text. Whatever they are, they can be shown: characters are read byte by byte, and where a byte cannot
  go on with a character that has begun, the replacement character stands for what has been read of it.
Main exports: Bytes, Text.bytes, Text.Begun, Text.lossy, Text.ofBytes?
-/
import CanvasExport.Text.Basic

namespace CanvasExport

/-- A byte sequence, such as a path or an argument. -/
abbrev Bytes := List UInt8

namespace Text

/-- The UTF-8 bytes of a text. -/
def bytes (t : Text) : Bytes :=
  t.flatMap String.utf8EncodeChar

@[simp] theorem bytes_nil : bytes [] = [] := rfl

@[simp] theorem bytes_cons (c : Char) (t : Text) : bytes (c :: t) = String.utf8EncodeChar c ++ bytes t :=
  List.flatMap_cons

@[simp] theorem bytes_append (s t : Text) : bytes (s ++ t) = bytes s ++ bytes t :=
  List.flatMap_append

/-- What is shown in place of bytes that make no character. -/
def replacement : Char := '\uFFFD'

/-- A character that has begun: the value of the bits read so far, how many bytes follow the next one, and the least
    and the greatest byte that the next one may be. -/
structure Begun where
  value : Nat
  behind : Nat
  least : Nat
  greatest : Nat
deriving DecidableEq, Repr, Inhabited

/-- A character that goes on with bytes of any six bits. -/
def Begun.goingOn (value behind : Nat) : Begun :=
  ⟨value, behind, 0x80, 0xBF⟩

/-- What a byte in front of a character shows by itself, and the character that it begins. The second byte has a
    narrower range where more would be longer than needed, a surrogate, or beyond the last character. -/
def atStart (b : Nat) : Text × Option Begun :=
  if b < 0x80 then ([Char.ofNat b], none)
  else if b < 0xC2 then ([replacement], none)
  else if b < 0xE0 then ([], some (.goingOn (b - 0xC0) 0))
  else if b < 0xF0 then
    ([], some ⟨b - 0xE0, 1, if b = 0xE0 then 0xA0 else 0x80, if b = 0xED then 0x9F else 0xBF⟩)
  else if b < 0xF5 then
    ([], some ⟨b - 0xF0, 2, if b = 0xF0 then 0x90 else 0x80, if b = 0xF4 then 0x8F else 0xBF⟩)
  else ([replacement], none)

/-- The text that the bytes show behind a character that has begun, or in front of one. -/
def lossyFrom : Option Begun → Bytes → Text
  | none, [] => []
  | some _, [] => [replacement]
  | none, b :: rest => (atStart b.toNat).1 ++ lossyFrom (atStart b.toNat).2 rest
  | some s, b :: rest =>
    if s.least ≤ b.toNat ∧ b.toNat ≤ s.greatest then
      let value := s.value * 64 + (b.toNat - 0x80)
      match s.behind with
      | 0 => Char.ofNat value :: lossyFrom none rest
      | behind + 1 => lossyFrom (some (.goingOn value behind)) rest
    else
      -- The byte ends what has begun and is read again in front of a character.
      replacement :: ((atStart b.toNat).1 ++ lossyFrom (atStart b.toNat).2 rest)

/-- The text that is shown for any bytes. -/
def lossy (p : Bytes) : Text :=
  lossyFrom none p

/-- The text whose bytes these are. Bytes of a text show this text, so no other is in question. -/
def ofBytes? (p : Bytes) : Option Text :=
  if bytes (lossy p) = p then some (lossy p) else none

/-- Whether bytes are those of a text. -/
def IsUtf8 (p : Bytes) : Prop :=
  ∃ t, bytes t = p

end Text

end CanvasExport
