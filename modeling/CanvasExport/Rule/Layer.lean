/-
Module: CanvasExport.Rule.Layer
Layer: Rule
Purpose: Layer gates. A comment `// figure<i>avatar…`, `// figure<i>hair<k>` or `// figure<i>eyes<k>` tags the
  layer that the nearest following registration line puts on the stage; the gate of that figure and kind
  puts a guard in front of that line, so that the layer shows only for the selected figure, hair or eyes.
  Avatar tags that name an accessory are passed over.
Main exports: LayerKind, LayerGate, gatesOf, TaggedLayer, LayerGate.tag, LayerGate.guard, LayerGate.layer?,
  LayerGate.recognizer, LayerGate.recognizer_faithful
-/
import CanvasExport.Rule.Registration
import CanvasExport.Text.Edit

namespace CanvasExport.Rule

/-- What a tagged layer shows. -/
inductive LayerKind where
  | avatar
  | hair
  | eyes
deriving DecidableEq, Repr, Inhabited

namespace LayerKind

/-- The word of the kind in tags and in selections. -/
def word : LayerKind → Text
  | .avatar => "avatar".toList
  | .hair => "hair".toList
  | .eyes => "eyes".toList

end LayerKind

/-- The gate of one kind of layer of one figure. -/
structure LayerGate where
  figure : Nat
  kind : LayerKind
deriving DecidableEq, Repr, Inhabited

/-- The gates of the figures below `figures`, in the order in which they run. -/
def gatesOf (figures : Nat) : List LayerGate :=
  (List.range figures).flatMap fun figure =>
    [⟨figure, .avatar⟩, ⟨figure, .hair⟩, ⟨figure, .eyes⟩]

/-!
### Tagged layers

A tag is its fixed part and a suffix: the rest of the line for an avatar, the digits of a variant for hair
and eyes. A tag without a registration line somewhere after it is no tagged layer.
-/

/-- A tag that has a registration line, from the end of its fixed part on. -/
structure TaggedLayer where
  suffix : Text
  registered : Registration
deriving DecidableEq, Repr, Inhabited

/-- The text in which the layer was found. -/
def TaggedLayer.whole (layer : TaggedLayer) : Text :=
  layer.suffix ++ layer.registered.whole

/-- The last character of a text, or `before` if it is empty. -/
def lastOr (before : Char) (t : Text) : Char :=
  t.getLast?.getD before

/-- The layer of an avatar tag. Its suffix is the rest of the line; if no registration line follows that
    line, one may still start inside it, and then the suffix ends where the last such one starts. -/
def avatarLayer? (before : Char) (t : Text) : Option TaggedLayer :=
  let suffix := t.takeWhile (· != '\n')
  match nextRegistration? (lastOr before suffix) (t.dropWhile (· != '\n')) with
  | some found => some ⟨suffix, found⟩
  | none => (lastInLine? before t).map fun found => ⟨found.gap, { found with gap := [] }⟩

theorem whole_of_avatarLayer? {before : Char} {t : Text} {layer : TaggedLayer}
    (h : avatarLayer? before t = some layer) : layer.whole = t := by
  simp only [avatarLayer?] at h
  split at h
  · rename_i found hfound
    obtain rfl : TaggedLayer.mk (t.takeWhile (· != '\n')) found = layer := by simpa using h
    simp [TaggedLayer.whole, whole_of_nextRegistration? hfound]
  · obtain ⟨found, hlast, rfl⟩ := Option.map_eq_some_iff.1 h
    simpa [TaggedLayer.whole, Registration.whole] using whole_of_lastInLine? hlast

/-- The layer of a hair or eyes tag, which needs a digit. -/
def variantLayer? (before : Char) (t : Text) : Option TaggedLayer :=
  let suffix := t.takeWhile Char.isDigit
  if suffix.isEmpty then
    none
  else
    (nextRegistration? (lastOr before suffix) (t.dropWhile Char.isDigit)).map fun found => ⟨suffix, found⟩

theorem whole_of_variantLayer? {before : Char} {t : Text} {layer : TaggedLayer}
    (h : variantLayer? before t = some layer) : layer.whole = t := by
  simp only [variantLayer?] at h
  split at h
  · contradiction
  · obtain ⟨found, hnext, rfl⟩ := Option.map_eq_some_iff.1 h
    simp [TaggedLayer.whole, whole_of_nextRegistration? hnext]

namespace LayerGate

/-- The fixed part of the gate's tags. -/
def tag (gate : LayerGate) : Text :=
  "// figure".toList ++ Text.numeral gate.figure ++ gate.kind.word

theorem tag_ne_nil (gate : LayerGate) : gate.tag ≠ [] := by
  intro h
  have hhead := (List.append_eq_nil_iff.1 (List.append_eq_nil_iff.1 h).1).1
  exact absurd hhead (by decide)

/-- The gate's layer at the head of the text. -/
def layer? (gate : LayerGate) (t : Text) : Option TaggedLayer := do
  let rest ← Text.strip? gate.tag t
  let before := lastOr ' ' gate.tag
  match gate.kind with
  | .avatar => avatarLayer? before rest
  | .hair | .eyes => variantLayer? before rest

theorem append_whole_of_layer? {gate : LayerGate} {t : Text} {layer : TaggedLayer}
    (h : gate.layer? t = some layer) : gate.tag ++ layer.whole = t := by
  obtain ⟨rest, hstrip, hlayer⟩ := Option.bind_eq_some_iff.1 h
  rw [Text.strip?_eq_some_iff.1 hstrip]
  split at hlayer
  · rw [whole_of_avatarLayer? hlayer]
  all_goals rw [whole_of_variantLayer? hlayer]

/-!
### Guards
-/

/-- The condition under which the layer shows; `variant` is the number of the hair or the eyes. -/
def condition (gate : LayerGate) (selection variant : Text) : Text :=
  let figure := selection ++ ".figure == ".toList ++ Text.numeral gate.figure
  match gate.kind with
  | .avatar => figure
  | kind => figure ++ " && ".toList ++ selection ++ ['.'] ++ kind.word ++ " == ".toList ++ variant

/-- The guard in front of a registration line. -/
def guard (gate : LayerGate) (selection variant : Text) : Text :=
  "if (".toList ++ gate.condition selection variant ++ [')']

end LayerGate

/-- Whether an avatar's suffix names an accessory, in any case. -/
def isAccessory (suffix : Text) : Bool :=
  Text.occursIn "accessory".toList (suffix.map Char.toLower)

namespace LayerGate

/-- The edits of a tagged layer. A line that starts with the guard counts and stays as it is; for an
    accessory nothing is done, and the sweep goes on behind its suffix. -/
def edits (gate : LayerGate) (selection : Text) (layer : TaggedLayer) : Script :=
  let tagged := gate.tag ++ layer.suffix
  if gate.kind = .avatar && isAccessory layer.suffix then
    [.keep tagged]
  else
    let guard := gate.guard selection layer.suffix
    let line := layer.registered.line
    [.keep (tagged ++ layer.registered.gap),
      .swap [] (if guard.isPrefixOf line then [] else guard),
      .keep line]

/-- Guards each layer of the gate. -/
def recognizer (gate : LayerGate) (selection : Text) : Recognizer := fun _ t =>
  (gate.layer? t).map (gate.edits selection)

theorem recognizer_faithful (gate : LayerGate) (selection : Text) :
    (gate.recognizer selection).Faithful := by
  intro before t s hs
  obtain ⟨layer, hlayer, rfl⟩ := Option.map_eq_some_iff.1 hs
  have hwhole := append_whole_of_layer? hlayer
  unfold edits
  split
  · refine ⟨by simp [Script.source, Edit.source, gate.tag_ne_nil], layer.registered.whole, ?_⟩
    simp [← hwhole, Script.source, Edit.source, TaggedLayer.whole]
  · refine ⟨by simp [Script.source, Edit.source, gate.tag_ne_nil], layer.registered.rest, ?_⟩
    simp [← hwhole, Script.source, Edit.source, TaggedLayer.whole, Registration.whole]

end LayerGate

end CanvasExport.Rule
