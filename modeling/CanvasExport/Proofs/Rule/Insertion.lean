/-
Module: CanvasExport.Proofs.Rule.Insertion
Layer: Proofs
Purpose: What rules write. A rule is a chain of scripts, each over the text that the one before it wrote, and
  whatever a script puts in place of something is one of the texts that its rule inserts. Where the palette gives
  the parts of such a text, and the parts are sound, the text can neither end its line nor open a string or a
  comment.
Main exports: Harmless, Script.Chain, Rule.scripts, Rule.chain_scripts, Rule.Inserts, Rule.inserts_of_mem_scripts,
  Rule.harmless_of_inserts
-/
import CanvasExport.Proofs.Rule.Lines
import CanvasExport.Proofs.Rule.Pass

namespace CanvasExport

/-! ### Harmless texts -/

/-- A text that keeps its line going, holds no quotes and starts no comment. The line and paragraph separators
    end lines of code too. -/
structure Harmless (t : Text) : Prop where
  unbroken : '\n' ∉ t ∧ '\r' ∉ t ∧ '\u2028' ∉ t ∧ '\u2029' ∉ t
  unquoted : '"' ∉ t ∧ '\x27' ∉ t ∧ '\x60' ∉ t
  uncommented : ¬ "//".toList <:+: t

/-- The characters of guards and statements. -/
def codeChar (c : Char) : Bool :=
  Rule.guardChar c || c == ';'

theorem harmless_of_writtenIn {t : Text} (h : WrittenIn codeChar t) : Harmless t where
  unbroken := ⟨h.not_mem (by decide), h.not_mem (by decide), h.not_mem (by decide), h.not_mem (by decide)⟩
  unquoted := ⟨h.not_mem (by decide), h.not_mem (by decide), h.not_mem (by decide)⟩
  uncommented hslashes := h.not_mem (show codeChar '/' = false by decide) (hslashes.subset (by decide))

theorem WrittenIn.code {t : Text} (h : WrittenIn argumentChar t) : WrittenIn codeChar t :=
  h.mono fun c hc => by simp [codeChar, Rule.guardChar, hc]

/-! ### Chains of scripts -/

/-- Scripts that lead from one text to another, each reading what the one before it wrote. -/
inductive Script.Chain : Text → List Script → Text → Prop
  | nil (t : Text) : Chain t [] t
  | cons {s : Script} {scripts : List Script} {t : Text} (h : Chain s.result scripts t) :
      Chain s.source (s :: scripts) t

namespace Rewrite

/-- The scripts of passes, each over the text that the previous one wrote. -/
def scriptsOf : List (Text → Script) → Text → List Script
  | [], _ => []
  | pass :: rest, t => pass t :: scriptsOf rest (pass t).result

theorem chain_scriptsOf {steps : List (Text → Script)} (h : ∀ pass ∈ steps, ∀ t, (pass t).source = t) (t : Text) :
    Script.Chain t (scriptsOf steps t) (passes t steps).text := by
  induction steps generalizing t with
  | nil => exact .nil t
  | cons pass steps ih =>
      rw [List.forall_mem_cons] at h
      have hchain := Script.Chain.cons (ih h.2 (pass t).result)
      rw [h.1 t] at hchain
      rwa [passes_cons]

/-- A script of several passes is the script of one of them. -/
theorem exists_of_mem_scriptsOf {steps : List (Text → Script)} {t : Text} {script : Script}
    (h : script ∈ scriptsOf steps t) : ∃ pass ∈ steps, ∃ read, script = pass read := by
  induction steps generalizing t with
  | nil => contradiction
  | cons pass steps ih =>
      rcases List.mem_cons.1 h with rfl | h
      · exact ⟨pass, List.mem_cons_self, t, rfl⟩
      · obtain ⟨later, hmem, hread⟩ := ih h
        exact ⟨later, List.mem_cons_of_mem _ hmem, hread⟩

end Rewrite

namespace Rule

/-- The passes of a rule over a document. -/
def steps (rule : Rule) (context : DocumentContext) : List (Text → Script) :=
  match rule with
  | .paletteAlias global => [aliasScript context.ending global]
  | .paletteColors colors => colors.map fun entry => (swapColor entry.1 entry.2).script
  | .indexedPaletteColors table => [(swapIndexed table).script]
  | .layerVisibility figures selection => (gatesOf figures).map fun gate => (gate.recognizer selection).script
  | .assetPath directory => [(remapBitmaps directory).script]
  | .fileIdLookup => [lookupScript context.ending context.stem]

theorem passes_singleton (pass : Text → Script) (t : Text) :
    Rewrite.passes t [pass] = .ofScript (pass t) := by
  rw [Rewrite.passes_cons]
  rfl

theorem apply_eq_passes (rule : Rule) (context : DocumentContext) (t : Text) :
    rule.apply context t = Rewrite.passes t (rule.steps context) := by
  cases rule with
  | paletteColors colors => rfl
  | layerVisibility figures selection => rfl
  | _ => rw [steps, passes_singleton]; rfl

/-- The scripts of a rule over a text. -/
def scripts (rule : Rule) (context : DocumentContext) (t : Text) : List Script :=
  Rewrite.scriptsOf (rule.steps context) t

theorem source_aliasScript (ending : LineEnding) (global t : Text) : (aliasScript ending global t).source = t := by
  rw [aliasScript]
  split
  · exact Recognizer.source_script (Recognizer.literal_faithful _ (aliasStatement_ne_nil global)) t
  · exact Recognizer.source_script (insertAlias_faithful ending _) t

theorem source_lookupScript (ending : LineEnding) (stem t : Text) : (lookupScript ending stem t).source = t := by
  rw [lookupScript]
  split
  · exact Recognizer.source_script (Recognizer.literal_faithful _ (lookupEntry_ne_nil stem)) t
  · exact Recognizer.source_script (insertLookup_faithful ending _) t

/-- Each pass of a rule reads the text that it is given. -/
theorem source_of_mem_steps {rule : Rule} {context : DocumentContext} :
    ∀ pass ∈ rule.steps context, ∀ t, (pass t).source = t := by
  intro pass hpass t
  cases rule with
  | paletteAlias global =>
      obtain rfl := List.mem_singleton.1 hpass
      exact source_aliasScript context.ending global t
  | paletteColors colors =>
      obtain ⟨entry, -, rfl⟩ := List.mem_map.1 hpass
      exact Recognizer.source_script (Recognizer.literal_faithful _ (fillLiteral_ne_nil _)) t
  | indexedPaletteColors table =>
      obtain rfl := List.mem_singleton.1 hpass
      exact Recognizer.source_script (swapIndexed_faithful table) t
  | layerVisibility figures selection =>
      obtain ⟨gate, -, rfl⟩ := List.mem_map.1 hpass
      exact Recognizer.source_script (gate.recognizer_faithful selection) t
  | assetPath directory =>
      obtain rfl := List.mem_singleton.1 hpass
      exact Recognizer.source_script (Recognizer.literal_faithful _ (by decide)) t
  | fileIdLookup =>
      obtain rfl := List.mem_singleton.1 hpass
      exact source_lookupScript context.ending context.stem t

/-- The scripts of a rule lead from the text that it reads to the text that it writes. -/
theorem chain_scripts (rule : Rule) (context : DocumentContext) (t : Text) :
    Script.Chain t (rule.scripts context t) (rule.apply context t).text := by
  rw [apply_eq_passes]
  exact Rewrite.chain_scriptsOf source_of_mem_steps t

/-! ### Inserted texts -/

/-- The reference to a slot of the indexed table, by the digits that the color carries. -/
def indexedReference (table palette slot : Text) : Text :=
  fillReference (table ++ ['['] ++ trimIndex palette ++ [']', '['] ++ trimIndex slot ++ [']'])

/-- The texts that a rule writes for a document with the given stem. -/
def Inserts (rule : Rule) (stem s : Text) : Prop :=
  match rule with
  | .paletteAlias global => s = aliasStatement global
  | .paletteColors colors => ∃ entry ∈ colors, s = slotReference entry.2
  | .indexedPaletteColors table =>
    ∃ palette slot, palette.all Char.isDigit = true ∧ slot.all Char.isDigit = true
      ∧ s = indexedReference table palette slot
  | .layerVisibility figures selection => s = [] ∨ ∃ gate ∈ gatesOf figures, gate.IsGuard selection s
  | .assetPath directory => s = '"' :: directory
  | .fileIdLookup => s = lookupEntry stem ∨ s = lookupGuard ++ lookupEntry stem

theorem new_of_swap_mem_literal {needle image t old new : Text}
    (h : Edit.swap old new ∈ (Recognizer.literal needle image).script t) : new = image := by
  obtain ⟨_, _, s, -, hs, hmem⟩ := Recognizer.exists_of_swap_mem_script h
  obtain ⟨_, -, rfl⟩ := Option.map_eq_some_iff.1 hs
  simpa using (Edit.swap.inj (List.mem_singleton.1 hmem)).2

theorem new_of_swap_mem_aliasScript {ending : LineEnding} {global t old new : Text}
    (h : Edit.swap old new ∈ aliasScript ending global t) :
    new = aliasStatement global ∨ new = ending.text ++ aliasStatement global ++ ending.text := by
  rw [aliasScript] at h
  split at h
  · exact .inl (new_of_swap_mem_literal h)
  · obtain ⟨_, _, s, -, hs, hmem⟩ := Recognizer.exists_of_swap_mem_script h
    obtain ⟨found, -, rfl⟩ := Option.map_eq_some_iff.1 hs
    simp only [List.mem_cons, reduceCtorEq, Edit.swap.injEq, List.not_mem_nil, or_false, false_or] at hmem
    exact .inr hmem.2

theorem new_of_swap_mem_lookupScript {ending : LineEnding} {stem t old new : Text}
    (h : Edit.swap old new ∈ lookupScript ending stem t) :
    new = lookupEntry stem ∨ new = ending.text ++ (lookupGuard ++ lookupEntry stem) ++ ending.text := by
  rw [lookupScript] at h
  split at h
  · exact .inl (new_of_swap_mem_literal h)
  · obtain ⟨before, below, s, -, hs, hmem⟩ := Recognizer.exists_of_swap_mem_script h
    rw [insertLookup] at hs
    split at hs
    · obtain ⟨rest, -, hs⟩ := Option.bind_eq_some_iff.1 hs
      split at hs
      · obtain rfl := Option.some.inj hs
        simp only [List.mem_cons, reduceCtorEq, Edit.swap.injEq, List.not_mem_nil, or_false] at hmem
        exact .inr (by simpa using hmem.2)
      · contradiction
    · contradiction

theorem new_of_swap_mem_swapIndexed {table t old new : Text}
    (h : Edit.swap old new ∈ (swapIndexed table).script t) :
    ∃ palette slot, palette.all Char.isDigit = true ∧ slot.all Char.isDigit = true
      ∧ new = indexedReference table palette slot := by
  obtain ⟨_, _, s, -, hs, hmem⟩ := Recognizer.exists_of_swap_mem_script h
  obtain ⟨fill, hfill, rfl⟩ := Option.map_eq_some_iff.1 hs
  obtain ⟨c, p₁, p₂, s₁, s₂, rest, -, hdigits, -, rfl⟩ := eq_literal_of_indexedFill? hfill
  obtain rfl := (Edit.swap.inj (List.mem_singleton.1 hmem)).2
  simp only [List.all_cons, List.all_nil, Bool.and_eq_true, Bool.and_true] at hdigits
  exact ⟨[p₁, p₂], [s₁, s₂], by simp [hdigits], by simp [hdigits], rfl⟩

/-- The layer of a hair or eyes tag carries the digits of a variant. -/
theorem suffix_of_variantLayer? {before : Char} {t : Text} {layer : TaggedLayer}
    (h : variantLayer? before t = some layer) : layer.suffix ≠ [] ∧ WrittenIn Char.isDigit layer.suffix := by
  simp only [variantLayer?] at h
  split at h
  · contradiction
  · rename_i hdigits
    obtain ⟨found, -, rfl⟩ := Option.map_eq_some_iff.1 h
    exact ⟨by simpa using hdigits, writtenIn_takeWhile t⟩

/-- The suffix of a hair or eyes tag is the number of a variant. -/
theorem LayerGate.variant_of_layer? {gate : LayerGate} {t : Text} {layer : TaggedLayer}
    (h : gate.layer? t = some layer) (hkind : gate.kind ≠ .avatar) :
    layer.suffix ≠ [] ∧ WrittenIn Char.isDigit layer.suffix := by
  obtain ⟨rest, -, hlayer⟩ := Option.bind_eq_some_iff.1 h
  cases hgate : gate.kind with
  | avatar => exact absurd hgate hkind
  | hair | eyes =>
      simp only [hgate] at hlayer
      exact suffix_of_variantLayer? hlayer

theorem new_of_swap_mem_recognizer {gate : LayerGate} {selection t old new : Text}
    (h : Edit.swap old new ∈ (gate.recognizer selection).script t) :
    new = [] ∨ gate.IsGuard selection new := by
  obtain ⟨_, found, s, -, hs, hmem⟩ := Recognizer.exists_of_swap_mem_script h
  obtain ⟨layer, hlayer, rfl⟩ := Option.map_eq_some_iff.1 hs
  cases haccessory : gate.kind = .avatar && isAccessory layer.suffix with
  | true =>
      rw [LayerGate.edits_of_accessory selection haccessory] at hmem
      simp at hmem
  | false =>
      rw [LayerGate.edits_of_guarded selection haccessory] at hmem
      obtain ⟨-, rfl⟩ : old = [] ∧ new = gate.inserted selection layer := by simpa using hmem
      rcases gate.inserted_cases selection layer with hguard | ⟨hnone, -⟩
      · exact .inr ⟨layer.suffix, gate.variant_of_layer? hlayer, hguard⟩
      · exact .inl hnone

/-- Whatever a rule puts in place of something is a text that it inserts, as it is or on a line of its own. -/
theorem inserts_of_mem_scripts {rule : Rule} {context : DocumentContext} {t : Text} {script : Script}
    (hscript : script ∈ rule.scripts context t) {old new : Text} (hswap : Edit.swap old new ∈ script) :
    ∃ s, rule.Inserts context.stem s ∧ (new = s ∨ new = context.ending.text ++ s ++ context.ending.text) := by
  obtain ⟨pass, hpass, read, rfl⟩ := Rewrite.exists_of_mem_scriptsOf hscript
  cases rule with
  | paletteAlias global =>
      obtain rfl := List.mem_singleton.1 hpass
      exact ⟨_, rfl, new_of_swap_mem_aliasScript hswap⟩
  | paletteColors colors =>
      obtain ⟨entry, hentry, rfl⟩ := List.mem_map.1 hpass
      exact ⟨_, ⟨entry, hentry, rfl⟩, .inl (new_of_swap_mem_literal hswap)⟩
  | indexedPaletteColors table =>
      obtain rfl := List.mem_singleton.1 hpass
      exact ⟨new, new_of_swap_mem_swapIndexed hswap, .inl rfl⟩
  | layerVisibility figures selection =>
      obtain ⟨gate, hgate, rfl⟩ := List.mem_map.1 hpass
      exact ⟨new, (new_of_swap_mem_recognizer hswap).imp_right fun hguard => ⟨gate, hgate, hguard⟩, .inl rfl⟩
  | assetPath directory =>
      obtain rfl := List.mem_singleton.1 hpass
      exact ⟨_, rfl, .inl (new_of_swap_mem_literal hswap)⟩
  | fileIdLookup =>
      obtain rfl := List.mem_singleton.1 hpass
      rcases new_of_swap_mem_lookupScript hswap with hnew | hnew
      · exact ⟨_, .inl rfl, .inl hnew⟩
      · exact ⟨_, .inr rfl, .inr hnew⟩

theorem writtenIn_fillReference {argument : Text} (h : WrittenIn argumentChar argument) :
    WrittenIn codeChar (fillReference argument) := by
  have hopening : WrittenIn codeChar "graphics.f(".toList := by decide
  have hclosing : WrittenIn codeChar ").s()".toList := by decide
  exact (hopening.append h.code).append hclosing

/-- Whether the texts of a rule are made from what a palette holds. -/
def FromPalette (rule : Rule) : Prop :=
  rule.name ≠ .assetPath ∧ rule.name ≠ .fileIdLookup

/-- The texts that sound rules of a palette insert are harmless. -/
theorem harmless_of_inserts {rule : Rule} (hsound : rule.Sound) (hpalette : rule.FromPalette) {stem s : Text}
    (h : rule.Inserts stem s) : Harmless s := by
  apply harmless_of_writtenIn
  cases rule with
  | paletteAlias global =>
      obtain rfl := h
      have hopening : WrittenIn codeChar "this.assetPalette = ".toList := by decide
      exact (hopening.append (writtenIn_of_isIdentifier hsound).argument.code).append (by decide)
  | paletteColors colors =>
      obtain ⟨entry, hentry, rfl⟩ := h
      have hopening : WrittenIn argumentChar "this.assetPalette.".toList := by decide
      exact writtenIn_fillReference (hopening.append (writtenIn_of_isIdentifier (hsound entry hentry).2).argument)
  | indexedPaletteColors table =>
      obtain ⟨palette, slot, hpalette, hslot, rfl⟩ := h
      have htable := (writtenIn_of_isIdentifier hsound).argument
      have hopens : WrittenIn argumentChar ['['] := by decide
      have hbetween : WrittenIn argumentChar [']', '['] := by decide
      have hcloses : WrittenIn argumentChar [']'] := by decide
      exact writtenIn_fillReference (((((htable.append hopens).append (writtenIn_trimIndex hpalette)).append
        hbetween).append (writtenIn_trimIndex hslot)).append hcloses)
  | layerVisibility figures selection =>
      rcases h with rfl | ⟨gate, -, hguard⟩
      · exact .nil
      · exact (gate.isGuardText_of_isGuard hsound hguard).written.mono fun c hc => by simp [codeChar, hc]
  | assetPath directory => exact absurd rfl hpalette.1
  | fileIdLookup => exact absurd rfl hpalette.2

end Rule

end CanvasExport
