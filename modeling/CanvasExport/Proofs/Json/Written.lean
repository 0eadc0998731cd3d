/-
Module: CanvasExport.Proofs.Json.Written
Layer: Proofs
Purpose: The texts of a JSON value. Blanks may stand before every token, the members of an object and the items
  of a list have commas between them, and strings are written as literals. Both written forms of a value, the
  compact one and the indented one, are among its texts.
Main exports: Json.Written, Json.WrittenItems, Json.WrittenMembers, Json.written_compact, Json.written_indented
-/
import CanvasExport.Json.Reader
import CanvasExport.Json.Value
import CanvasExport.Proofs.Text.Alphabet

namespace CanvasExport.Json

/-- Characters that may stand between tokens. -/
abbrev Blanks (t : Text) : Prop :=
  WrittenIn isBlank t

/-- What separates an item or a member from what precedes it: nothing before the first, a comma before the
    others. -/
inductive Separator : (first : Bool) → Text → Prop
  | none : Separator true []
  | comma {blanks : Text} (hblanks : Blanks blanks) : Separator false (blanks ++ [','])

mutual

/-- The text writes the value, with blanks before its tokens. -/
inductive Written : Json → Text → Prop
  | null {blanks : Text} (hblanks : Blanks blanks) : Written .null (blanks ++ "null".toList)
  | bool {blanks : Text} (hblanks : Blanks blanks) (b : Bool) : Written (.bool b) (blanks ++ Text.ofBool b)
  | number {blanks : Text} (hblanks : Blanks blanks) (n : Nat) : Written (.number n) (blanks ++ Text.numeral n)
  | string {blanks : Text} (hblanks : Blanks blanks) (s : Text) : Written (.string s) (blanks ++ Text.literal s)
  | array {blanks : Text} (hblanks : Blanks blanks) {items : List Json} {t : Text} (h : WrittenItems true items t) :
      Written (.array items) (blanks ++ '[' :: t)
  | object {blanks : Text} (hblanks : Blanks blanks) {members : List (Text × Json)} {t : Text}
      (h : WrittenMembers true members t) : Written (.object members) (blanks ++ '\x7b' :: t)

/-- The text writes the items and the bracket that closes the list; `first` says whether no item precedes. -/
inductive WrittenItems : (first : Bool) → List Json → Text → Prop
  | nil {first : Bool} {blanks : Text} (hblanks : Blanks blanks) : WrittenItems first [] (blanks ++ [']'])
  | cons {first : Bool} {separator v t : Text} {item : Json} {rest : List Json}
      (hseparator : Separator first separator) (hitem : Written item v) (hrest : WrittenItems false rest t) :
      WrittenItems first (item :: rest) (separator ++ (v ++ t))

/-- The text writes the members and the brace that closes the object; `first` says whether no member precedes. -/
inductive WrittenMembers : (first : Bool) → List (Text × Json) → Text → Prop
  | nil {first : Bool} {blanks : Text} (hblanks : Blanks blanks) : WrittenMembers first [] (blanks ++ ['\x7d'])
  | cons {first : Bool} {separator above before v t : Text} {key : Text} {value : Json} {rest : List (Text × Json)}
      (hseparator : Separator first separator) (habove : Blanks above) (hbefore : Blanks before)
      (hvalue : Written value v) (hrest : WrittenMembers false rest t) :
      WrittenMembers first ((key, value) :: rest)
        (separator ++ (above ++ (Text.literal key ++ (before ++ ':' :: (v ++ t)))))

end

/-! ### Blanks and commas in front -/

theorem Written.behind {j : Json} {blanks t : Text} (hblanks : Blanks blanks) (h : Written j t) :
    Written j (blanks ++ t) := by
  cases h with
  | null h => simpa using Written.null (hblanks.append h)
  | bool h b => simpa using Written.bool (hblanks.append h) b
  | number h n => simpa using Written.number (hblanks.append h) n
  | string h s => simpa using Written.string (hblanks.append h) s
  | array h hitems => simpa using Written.array (hblanks.append h) hitems
  | object h hmembers => simpa using Written.object (hblanks.append h) hmembers

theorem WrittenItems.behind_comma {item : Json} {rest : List Json} {t : Text}
    (h : WrittenItems true (item :: rest) t) : WrittenItems false (item :: rest) (',' :: t) := by
  cases h with
  | cons hseparator hitem hrest =>
      cases hseparator
      exact .cons (.comma .nil) hitem hrest

theorem WrittenMembers.behind_comma {member : Text × Json} {rest : List (Text × Json)} {t : Text}
    (h : WrittenMembers true (member :: rest) t) : WrittenMembers false (member :: rest) (',' :: t) := by
  cases h with
  | cons hseparator habove hbefore hvalue hrest =>
      cases hseparator
      exact .cons (.comma .nil) habove hbefore hvalue hrest

/-! ### The compact form -/

mutual

/-- The compact form is a text of the value. -/
theorem written_compact : ∀ j : Json, Written j j.compact
  | .null => by simpa [compact] using Written.null .nil
  | .bool b => by simpa [compact] using Written.bool .nil b
  | .number n => by simpa [compact] using Written.number .nil n
  | .string s => by simpa [compact] using Written.string .nil s
  | .array items => by simpa [compact] using Written.array .nil (writtenItems_compact items)
  | .object members => by simpa [compact] using Written.object .nil (writtenMembers_compact members)

theorem writtenItems_compact : ∀ items : List Json, WrittenItems true items (compactItems items ++ [']'])
  | [] => WrittenItems.nil .nil
  | [item] => by
      have hrest : WrittenItems false [] [']'] := WrittenItems.nil .nil
      simpa [compactItems] using WrittenItems.cons .none (written_compact item) hrest
  | item :: next :: rest => by
      have hrest := (writtenItems_compact (next :: rest)).behind_comma
      simpa [compactItems] using WrittenItems.cons .none (written_compact item) hrest

theorem writtenMembers_compact :
    ∀ members : List (Text × Json), WrittenMembers true members (compactMembers members ++ ['\x7d'])
  | [] => WrittenMembers.nil .nil
  | [(key, value)] => by
      have hrest : WrittenMembers false [] ['\x7d'] := WrittenMembers.nil .nil
      have hmember : WrittenMembers true [(key, value)] _ := .cons .none .nil .nil (written_compact value) hrest
      simpa [compactMembers] using hmember
  | (key, value) :: next :: rest => by
      have hrest := (writtenMembers_compact (next :: rest)).behind_comma
      have hmember : WrittenMembers true ((key, value) :: next :: rest) _ :=
        .cons .none .nil .nil (written_compact value) hrest
      simpa [compactMembers] using hmember

end

/-! ### The indented form -/

theorem blanks_newLine (level : Nat) : Blanks (newLine level) := by
  refine WrittenIn.cons_iff.2 ⟨rfl, fun c hc => ?_⟩
  rw [List.eq_of_mem_replicate hc]
  rfl

theorem blanks_space : Blanks [' '] := by
  decide

mutual

/-- The indented form is a text of the value. -/
theorem written_indented : ∀ (level : Nat) (j : Json), Written j (indented level j)
  | _, .null => by simpa [indented] using Written.null .nil
  | _, .bool b => by simpa [indented] using Written.bool .nil b
  | _, .number n => by simpa [indented] using Written.number .nil n
  | _, .string s => by simpa [indented] using Written.string .nil s
  | _, .array [] => by
      have hitems : WrittenItems true [] [']'] := WrittenItems.nil .nil
      simpa [indented] using Written.array .nil hitems
  | level, .array (item :: rest) => by
      have hitem := (written_indented (level + 1) item).behind (blanks_newLine (level + 1))
      have hrest := writtenItems_indented (level + 1) rest (blanks_newLine level)
      simpa [indented] using Written.array .nil (.cons .none hitem hrest)
  | _, .object [] => by
      have hmembers : WrittenMembers true [] ['\x7d'] := WrittenMembers.nil .nil
      simpa [indented] using Written.object .nil hmembers
  | level, .object ((key, value) :: rest) => by
      have hvalue := (written_indented (level + 1) value).behind blanks_space
      have hrest := writtenMembers_indented (level + 1) rest (blanks_newLine level)
      have hmembers : WrittenMembers true ((key, value) :: rest) _ :=
        .cons .none (blanks_newLine (level + 1)) .nil hvalue hrest
      simpa [indented] using Written.object .nil hmembers

theorem writtenItems_indented : ∀ (level : Nat) (items : List Json) {blanks : Text}, Blanks blanks →
    WrittenItems false items (indentedItems level items ++ (blanks ++ [']']))
  | _, [], _, hblanks => by simpa [indentedItems] using WrittenItems.nil hblanks
  | level, item :: rest, _, hblanks => by
      have hitem := (written_indented level item).behind (blanks_newLine level)
      have hrest := writtenItems_indented level rest hblanks
      simpa [indentedItems] using WrittenItems.cons (.comma .nil) hitem hrest

theorem writtenMembers_indented : ∀ (level : Nat) (members : List (Text × Json)) {blanks : Text}, Blanks blanks →
    WrittenMembers false members (indentedMembers level members ++ (blanks ++ ['\x7d']))
  | _, [], _, hblanks => by simpa [indentedMembers] using WrittenMembers.nil hblanks
  | level, (key, value) :: rest, _, hblanks => by
      have hvalue := (written_indented level value).behind blanks_space
      have hrest := writtenMembers_indented level rest hblanks
      have hmember : WrittenMembers false ((key, value) :: rest) _ :=
        .cons (.comma .nil) (blanks_newLine level) .nil hvalue hrest
      simpa [indentedMembers] using hmember

end

end CanvasExport.Json
