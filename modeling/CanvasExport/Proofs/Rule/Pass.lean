/-
Module: CanvasExport.Proofs.Rule.Pass
Layer: Proofs
Purpose: The pass of a gate, layer by layer. Behind the tag of an accessory the pass goes on with what stands there,
  behind the line of any other layer with what stands behind that line; all other characters are kept. Whatever is
  said of a pass in any text is shown by induction along these four cases.
Main exports: LayerGate.inserted, LayerGate.script_of_accessory, LayerGate.script_of_guarded, LayerGate.layer_induction
-/
import CanvasExport.Proofs.Rule.Registration

namespace CanvasExport.Rule.LayerGate

variable {gate : LayerGate}

/-- What a gate puts in front of the line of a layer: the guard, unless the line starts with it. -/
def inserted (gate : LayerGate) (selection : Text) (layer : TaggedLayer) : Text :=
  if (gate.guard selection layer.suffix).isPrefixOf layer.registered.line then []
  else gate.guard selection layer.suffix

theorem inserted_cases (gate : LayerGate) (selection : Text) (layer : TaggedLayer) :
    gate.inserted selection layer = gate.guard selection layer.suffix
      ∨ gate.inserted selection layer = [] ∧ gate.guard selection layer.suffix <+: layer.registered.line := by
  rw [inserted]
  split
  · rename_i hstarts
    exact .inr ⟨rfl, List.isPrefixOf_iff_prefix.1 hstarts⟩
  · exact .inl rfl

/-- The line starts with the guard then. -/
theorem guard_prefix_inserted (gate : LayerGate) (selection : Text) (layer : TaggedLayer) :
    gate.guard selection layer.suffix <+: gate.inserted selection layer ++ layer.registered.line := by
  rcases gate.inserted_cases selection layer with hguard | ⟨hnone, hstarts⟩
  · exact hguard ▸ List.prefix_append _ _
  · rwa [hnone, List.nil_append]

/-- What a gate does with a layer that names an accessory: nothing. -/
theorem edits_of_accessory (selection : Text) {layer : TaggedLayer}
    (h : (gate.kind = .avatar && isAccessory layer.suffix) = true) :
    gate.edits selection layer = [.keep (gate.tag ++ layer.suffix)] := by
  rw [edits, if_pos h]

/-- What it does with any other layer. -/
theorem edits_of_guarded (selection : Text) {layer : TaggedLayer}
    (h : (gate.kind = .avatar && isAccessory layer.suffix) = false) :
    gate.edits selection layer = [.keep (gate.tag ++ layer.suffix ++ layer.registered.gap),
      .swap [] (gate.inserted selection layer), .keep layer.registered.line] := by
  rw [edits, if_neg (by simp [h])]
  rfl

/-- Behind the tag of an accessory the pass goes on. -/
theorem script_of_accessory (selection : Text) {layer : TaggedLayer}
    (hlayer : gate.layer? (gate.tag ++ layer.whole) = some layer)
    (h : (gate.kind = .avatar && isAccessory layer.suffix) = true) :
    (gate.recognizer selection).script (gate.tag ++ layer.whole)
      = .keep (gate.tag ++ layer.suffix) :: (gate.recognizer selection).script layer.registered.whole := by
  have hhere : gate.recognizer selection none (gate.tag ++ layer.whole) = some (gate.edits selection layer) := by
    rw [recognizer, hlayer, Option.map_some]
  have hsource : gate.tag ++ layer.whole
      = Script.source (gate.edits selection layer) ++ layer.registered.whole := by
    simp [edits_of_accessory selection h, Edit.source, TaggedLayer.whole]
  rw [Recognizer.script_of_some (gate.recognizer_faithful selection) (fun _ _ => rfl) hhere hsource,
    edits_of_accessory selection h]
  rfl

/-- Behind the line of any other layer too. -/
theorem script_of_guarded (selection : Text) {layer : TaggedLayer}
    (hlayer : gate.layer? (gate.tag ++ layer.whole) = some layer)
    (h : (gate.kind = .avatar && isAccessory layer.suffix) = false) :
    (gate.recognizer selection).script (gate.tag ++ layer.whole)
      = .keep (gate.tag ++ layer.suffix ++ layer.registered.gap) :: .swap [] (gate.inserted selection layer)
        :: .keep layer.registered.line :: (gate.recognizer selection).script layer.registered.rest := by
  have hhere : gate.recognizer selection none (gate.tag ++ layer.whole) = some (gate.edits selection layer) := by
    rw [recognizer, hlayer, Option.map_some]
  have hsource : gate.tag ++ layer.whole
      = Script.source (gate.edits selection layer) ++ layer.registered.rest := by
    simp [edits_of_guarded selection h, Edit.source, TaggedLayer.whole, Registration.whole]
  rw [Recognizer.script_of_some (gate.recognizer_faithful selection) (fun _ _ => rfl) hhere hsource,
    edits_of_guarded selection h]
  rfl

/-- Induction along a pass of a gate: the text ends, a character is kept, an accessory's tag is passed, or a layer's
    line is guarded. -/
theorem layer_induction (gate : LayerGate) (selection : Text) {motive : Text → Script → Prop} (nil : motive [] [])
    (kept : ∀ c rest, gate.layer? (c :: rest) = none → motive rest ((gate.recognizer selection).script rest) →
      motive (c :: rest) (.keep [c] :: (gate.recognizer selection).script rest))
    (accessory : ∀ layer, gate.layer? (gate.tag ++ layer.whole) = some layer →
      (gate.kind = .avatar && isAccessory layer.suffix) = true →
      motive layer.registered.whole ((gate.recognizer selection).script layer.registered.whole) →
      motive (gate.tag ++ layer.whole) (.keep (gate.tag ++ layer.suffix)
        :: (gate.recognizer selection).script layer.registered.whole))
    (guarded : ∀ layer, gate.layer? (gate.tag ++ layer.whole) = some layer →
      (gate.kind = .avatar && isAccessory layer.suffix) = false →
      motive layer.registered.rest ((gate.recognizer selection).script layer.registered.rest) →
      motive (gate.tag ++ layer.whole) (.keep (gate.tag ++ layer.suffix ++ layer.registered.gap)
        :: .swap [] (gate.inserted selection layer)
        :: .keep layer.registered.line :: (gate.recognizer selection).script layer.registered.rest))
    (t : Text) : motive t ((gate.recognizer selection).script t) := by
  refine Recognizer.script_induction (gate.recognizer_faithful selection) (fun _ _ => rfl) nil
    (fun c rest hnone hrest => kept c rest (Option.map_eq_none_iff.1 hnone) hrest)
    (fun s rest _ hs hrest => ?_) t
  obtain ⟨layer, hlayer, rfl⟩ := Option.map_eq_some_iff.1 hs
  have hwhole := append_whole_of_layer? hlayer
  rw [← hwhole] at hlayer
  rw [← hwhole]
  cases haccessory : gate.kind = .avatar && isAccessory layer.suffix with
  | true =>
      rw [edits_of_accessory selection haccessory] at hwhole ⊢
      obtain rfl : layer.registered.whole = rest := by simpa [Edit.source, TaggedLayer.whole] using hwhole
      exact accessory layer hlayer haccessory hrest
  | false =>
      rw [edits_of_guarded selection haccessory] at hwhole ⊢
      obtain rfl : layer.registered.rest = rest := by
        simpa [Edit.source, TaggedLayer.whole, Registration.whole] using hwhole
      exact guarded layer hlayer haccessory hrest

theorem getLast?_tag_append_or (gate : LayerGate) (before : Option Char) (behind : Text) :
    (gate.tag ++ behind).getLast?.or before = some (lastOr ' ' (gate.tag ++ behind)) := by
  obtain ⟨c, tail, htag⟩ := List.exists_cons_of_ne_nil gate.tag_ne_nil
  rw [htag, List.cons_append, getLast?_cons_or, getLast?_or_eq_lastOr, lastOr_cons]

end CanvasExport.Rule.LayerGate
