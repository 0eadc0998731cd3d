/-
Module: CanvasExport.Text.Basic
Layer: Text
Purpose: Text as a list of characters, and the few questions about it that every other module asks: what
  follows a needle, where a needle first occurs, how many bytes a text takes, how a number is written.
Main exports: Text, Text.strip?, Text.stripEnd?, Text.cut?, Text.occursIn, Text.byteLength, Text.numeral
-/

namespace CanvasExport

/-- A text is the list of its characters. Documents, names and messages are all texts, so that every rule
    about them is a recursion on a list. -/
abbrev Text := List Char

namespace Text

/-- What follows `needle`, for a text that starts with it. -/
def strip? : Text → Text → Option Text
  | [], t => some t
  | _ :: _, [] => none
  | n :: needle, c :: rest => if n = c then strip? needle rest else none

theorem strip?_eq_some_iff {needle t rest : Text} :
    strip? needle t = some rest ↔ t = needle ++ rest := by
  induction needle generalizing t with
  | nil => simp [strip?, eq_comm]
  | cons n needle ih =>
    cases t with
    | nil => simp [strip?]
    | cons c t =>
      by_cases h : n = c
      · simp [strip?, h, ih]
      · simp [strip?, h, Ne.symm h]

/-- What precedes `needle`, for a text that ends with it. -/
def stripEnd? (needle t : Text) : Option Text :=
  (strip? needle.reverse t.reverse).map List.reverse

theorem stripEnd?_eq_some_iff {needle t rest : Text} :
    stripEnd? needle t = some rest ↔ t = rest ++ needle := by
  rw [stripEnd?, Option.map_eq_some_iff]
  constructor
  · rintro ⟨reversed, hstrip, rfl⟩
    have := congrArg List.reverse (strip?_eq_some_iff.1 hstrip)
    simpa using this
  · rintro rfl
    exact ⟨rest.reverse, strip?_eq_some_iff.2 (by simp), by simp⟩

/-- The text before the first occurrence of `needle`, and the text after it. -/
def cut? (needle : Text) : Text → Option (Text × Text)
  | [] => if needle.isEmpty then some ([], []) else none
  | c :: rest =>
    match strip? needle (c :: rest) with
    | some after => some ([], after)
    | none => (cut? needle rest).map fun found => (c :: found.1, found.2)

/-- A cut loses nothing: what stands before, the needle and what stands after make up the text. -/
theorem eq_append_of_cut? {needle t before after : Text} (h : cut? needle t = some (before, after)) :
    t = before ++ needle ++ after := by
  induction t generalizing before with
  | nil =>
    cases needle with
    | nil => simp [cut?] at h; simp [h]
    | cons _ _ => simp [cut?] at h
  | cons c rest ih =>
    rw [cut?] at h
    split at h
    · rename_i found
      obtain ⟨rfl, rfl⟩ : [] = before ∧ _ = after := by simpa using h
      simpa using strip?_eq_some_iff.1 found
    · obtain ⟨⟨early, late⟩, hcut, heq⟩ := Option.map_eq_some_iff.1 h
      obtain ⟨rfl, rfl⟩ : c :: early = before ∧ late = after := by simpa using heq
      simp [ih hcut]

/-- Only a text in which the needle occurs nowhere has no cut. -/
theorem cut?_eq_none_iff {needle t : Text} : cut? needle t = none ↔ ¬ needle <:+: t := by
  induction t with
  | nil => cases needle <;> simp [cut?]
  | cons c rest ih =>
    rw [cut?, List.infix_cons_iff]
    cases hstrip : strip? needle (c :: rest) with
    | some after =>
      simp [show needle <+: c :: rest from ⟨after, (strip?_eq_some_iff.1 hstrip).symm⟩]
    | none =>
      have hstarts : ¬ needle <+: c :: rest := by
        rintro ⟨after, heq⟩
        simp [strip?_eq_some_iff.2 heq.symm] at hstrip
      simp [ih, hstarts]

/-- Whether `needle` occurs anywhere in the text. -/
def occursIn (needle t : Text) : Bool :=
  (cut? needle t).isSome

theorem occursIn_iff {needle t : Text} : occursIn needle t = true ↔ needle <:+: t := by
  rw [occursIn, Option.isSome_iff_ne_none, ne_eq, cut?_eq_none_iff, Classical.not_not]

/-- The number of bytes of the text in UTF-8, the unit in which positions and name lengths are counted. -/
def byteLength (t : Text) : Nat :=
  t.foldr (fun c bytes => c.utf8Size + bytes) 0

@[simp] theorem byteLength_nil : byteLength [] = 0 := rfl

@[simp] theorem byteLength_cons (c : Char) (t : Text) : byteLength (c :: t) = c.utf8Size + byteLength t :=
  rfl

@[simp] theorem byteLength_append (s t : Text) : byteLength (s ++ t) = byteLength s + byteLength t := by
  induction s with
  | nil => simp
  | cons c s ih => simp [ih, Nat.add_assoc]

/-- The decimal numeral of a number, without leading zeros. -/
def numeral (n : Nat) : Text :=
  Nat.toDigits 10 n

/-- The value of an ASCII digit. -/
def digitValue (c : Char) : Nat :=
  c.toNat - '0'.toNat

/-- The number that a run of digits denotes. -/
def digitsValue (digits : Text) : Nat :=
  digits.foldl (fun value c => value * 10 + digitValue c) 0

/-- The word of a truth value. -/
def ofBool (b : Bool) : Text :=
  if b then "true".toList else "false".toList

/-- The texts with the separator between each two of them. -/
def joinWith (separator : Text) (ts : List Text) : Text :=
  List.intercalate separator ts

end Text

end CanvasExport
