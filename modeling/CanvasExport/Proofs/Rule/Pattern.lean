/-
Module: CanvasExport.Proofs.Rule.Pattern
Layer: Proofs
Purpose: A gate's layers as matches of a search pattern. A pattern is a sequence of parts, and each part has its ways
  to cut a piece off a text, in the order in which a search that backtracks tries them; a match is the first way in
  which all parts fit, from the leftmost place from which they do. What a gate recognizes is such a match in any text,
  and its pass is the search for one match after the other.
Main exports: Part, Part.cuts, ways, match?, LayerGate.pattern, LayerGate.matchedLayer?_eq, LayerGate.search?,
  LayerGate.loop, LayerGate.loop_eq_script
-/
import CanvasExport.Proofs.Rule.Pass
import CanvasExport.Proofs.Rule.Reading
import CanvasExport.Rule.Basic

namespace CanvasExport.Rule

/-! ### Patterns -/

/-- A part of a search pattern. -/
inductive Part where
  /-- A fixed text. -/
  | text (needle : Text)
  /-- A run of characters of an alphabet, `least` of them or more; rather a longer one than a shorter one. -/
  | run (alphabet : Char → Bool) (least : Nat)
  /-- A stretch of any characters, rather a shorter one than a longer one. -/
  | stretch
  /-- Nothing, where a line starts. -/
  | lineStart

/-- The ways to cut a run off a text, the longest run first. -/
def longestFirst (alphabet : Char → Bool) : Text → List (Text × Text)
  | [] => [([], [])]
  | c :: rest =>
    (if alphabet c then (longestFirst alphabet rest).map fun cut => (c :: cut.1, cut.2) else []) ++ [([], c :: rest)]

/-- The ways to cut a text in two, the shortest piece first. -/
def shortestFirst : Text → List (Text × Text)
  | [] => [([], [])]
  | c :: rest => ([], c :: rest) :: (shortestFirst rest).map fun cut => (c :: cut.1, cut.2)

/-- The ways to cut a piece for the part off a text, in order of preference; `before` is the character in front of
    the text. -/
def Part.cuts (before : Option Char) (t : Text) : Part → List (Text × Text)
  | .text needle => (Text.strip? needle t).toList.map fun rest => (needle, rest)
  | .run alphabet least => (longestFirst alphabet t).filter fun cut => decide (least ≤ cut.1.length)
  | .stretch => shortestFirst t
  | .lineStart => if startsLine before t.head? then [([], t)] else []

/-- The ways to match the parts one behind the other: the pieces, and the text behind them. The first part's
    preference comes before that of the later ones. -/
def ways : List Part → Option Char → Text → List (List Text × Text)
  | [], _, t => [([], t)]
  | part :: parts, before, t =>
    (part.cuts before t).flatMap fun cut =>
      (ways parts (cut.1.getLast?.or before) cut.2).map fun way => (cut.1 :: way.1, way.2)

/-- The match of a pattern at the head of a text. -/
def match? (parts : List Part) (before : Option Char) (t : Text) : Option (List Text × Text) :=
  (ways parts before t).head?

theorem match?_cons (part : Part) (parts : List Part) (before : Option Char) (t : Text) :
    match? (part :: parts) before t = (part.cuts before t).findSome? fun cut =>
      (match? parts (cut.1.getLast?.or before) cut.2).map fun way => (cut.1 :: way.1, way.2) := by
  rw [match?, ways, List.head?_flatMap]
  simp only [List.head?_map]
  rfl

/-! ### The pattern of a gate -/

/-- A registration line through its last registration word. -/
def linePattern : List Part :=
  [.lineStart, .run (· != '\n') 0, .text registration]

namespace LayerGate

/-- What follows the fixed part of a tag: the rest of the line for an avatar, a number for hair and eyes. -/
def suffixPart (gate : LayerGate) : Part :=
  match gate.kind with
  | .avatar => .run (· != '\n') 0
  | .hair | .eyes => .run Char.isDigit 1

/-- A tag, what leads up to a registration line, and that line. -/
def pattern (gate : LayerGate) : List Part :=
  .text gate.tag :: gate.suffixPart :: .stretch :: linePattern

end LayerGate

/-- The registration line in a match of what leads up to it and its line. -/
def Registration.ofPieces : List Text × Text → Registration
  | (gap :: line, rest) => ⟨gap, line.flatten, rest⟩
  | ([], rest) => ⟨[], [], rest⟩

/-- The layer in a match behind the fixed part of its tag. -/
def TaggedLayer.ofPieces : List Text × Text → TaggedLayer
  | (suffix :: pieces, rest) => ⟨suffix, .ofPieces (pieces, rest)⟩
  | ([], rest) => ⟨[], .ofPieces ([], rest)⟩

/-! ### Searching through the ways to cut -/

section Cuts

variable {α : Type} (f : Text × Text → Option α)

theorem findSome?_longestFirst_cons (alphabet : Char → Bool) (c : Char) (rest : Text) :
    (longestFirst alphabet (c :: rest)).findSome? f
      = (if alphabet c then (longestFirst alphabet rest).findSome? fun cut => f (c :: cut.1, cut.2) else none).or
        (f ([], c :: rest)) := by
  rw [longestFirst, List.findSome?_append]
  cases alphabet c <;> simp [List.findSome?_map, Function.comp_def]

theorem findSome?_shortestFirst_cons (c : Char) (rest : Text) :
    (shortestFirst (c :: rest)).findSome? f
      = (f ([], c :: rest)).or ((shortestFirst rest).findSome? fun cut => f (c :: cut.1, cut.2)) := by
  rw [shortestFirst, List.findSome?_cons, List.findSome?_map]
  cases f ([], c :: rest) <;> rfl

end Cuts

/-- The longest run in front of a registration word ends at the last one of the line. -/
theorem findSome?_longestFirst_registration (t : Text) :
    ((longestFirst (· != '\n') t).findSome? fun cut =>
        (Text.strip? registration cut.2).map fun after => (cut.1 ++ registration, after))
      = throughRegistration? t := by
  induction t with
  | nil => decide
  | cons c rest ih =>
      have hrest : ((longestFirst (· != '\n') rest).findSome? fun cut =>
          (Text.strip? registration cut.2).map fun after => (c :: cut.1 ++ registration, after))
          = (throughRegistration? rest).map fun found => (c :: found.1, found.2) := by
        rw [← ih, List.map_findSome?]
        simp only [Function.comp_def, Option.map_map, List.cons_append]
      rw [findSome?_longestFirst_cons, hrest, throughRegistration?]
      by_cases hlf : c = '\n'
      · simp [hlf]
      · cases throughRegistration? rest <;> simp [hlf]

/-- The shortest stretch in front of a registration line ends at the nearest one. -/
theorem findSome?_shortestFirst_line (before : Char) (t : Text) :
    ((shortestFirst t).findSome? fun cut =>
        (if startsLine (cut.1.getLast?.or (some before)) cut.2.head? then throughRegistration? cut.2 else none).map
          fun found => (⟨cut.1, found.1, found.2⟩ : Registration))
      = nextRegistration? before t := by
  induction t generalizing before with
  | nil =>
      have hnone : throughRegistration? [] = none := rfl
      simp [shortestFirst, nextRegistration?, hnone]
  | cons c rest ih =>
      have hlast : ∀ cut : Text, (c :: cut).getLast?.or (some before) = cut.getLast?.or (some c) := by
        intro cut
        cases hcut : cut.getLast? <;> simp [List.getLast?_cons, hcut]
      have hrest := congrArg (Option.map (Registration.behind c)) (ih c)
      rw [List.map_findSome?] at hrest
      rw [findSome?_shortestFirst_cons, nextRegistration?, ← hrest]
      simp only [hlast, Function.comp_def, Option.map_map]
      by_cases hstart : startsLine (some before) (some c) = true
      · cases hthrough : throughRegistration? (c :: rest) <;>
          simp [hstart, hthrough, Registration.here?, Registration.behind]
      · simp [hstart, Registration.behind]

/-! ### Suffixes -/

theorem endsLine_of_isDigit {c : Char} (h : c.isDigit = true) : endsLine (some c) = false := by
  have hwritten : WrittenIn Char.isDigit [c] := by simpa using h
  exact hwritten.unbroken rfl rfl c List.mem_cons_self

/-- The longest number in front of a registration line is the whole run of digits: no line starts within it. -/
theorem findSome?_longestFirst_digits {before : Char} (hbefore : endsLine (some before) = false) (t : Text) :
    ((longestFirst Char.isDigit t).findSome? fun cut =>
        (nextRegistration? (lastOr before cut.1) cut.2).map fun found => TaggedLayer.mk cut.1 found)
      = (nextRegistration? (lastOr before (t.takeWhile Char.isDigit)) (t.dropWhile Char.isDigit)).map fun found =>
        TaggedLayer.mk (t.takeWhile Char.isDigit) found := by
  induction t generalizing before with
  | nil => rfl
  | cons c rest ih =>
      rw [findSome?_longestFirst_cons]
      cases hc : c.isDigit with
      | false => simp [hc, lastOr]
      | true =>
          have hdigit := endsLine_of_isDigit hc
          have hrest := congrArg (Option.map fun layer : TaggedLayer => { layer with suffix := c :: layer.suffix })
            (ih hdigit)
          rw [List.map_findSome?] at hrest
          simp only [Function.comp_def, Option.map_map] at hrest
          simp only [if_true, lastOr_cons, hrest, List.takeWhile_cons, List.dropWhile_cons, hc]
          cases hnext : nextRegistration? (lastOr c (rest.takeWhile Char.isDigit)) (rest.dropWhile Char.isDigit) with
          | some found => rfl
          | none =>
              have hrun : Unbroken (c :: rest.takeWhile Char.isDigit) := by
                have hwritten : WrittenIn Char.isDigit (c :: rest.takeWhile Char.isDigit) :=
                  WrittenIn.cons_iff.2 ⟨hc, writtenIn_takeWhile rest⟩
                exact hwritten.unbroken rfl rfl
              have hwithin := nextRegistration?_within hbefore hrun (rest.dropWhile Char.isDigit)
              rw [List.cons_append, List.takeWhile_append_dropWhile, lastOr_cons, hnext, Option.map_none] at hwithin
              simp [lastOr, hwithin]

/-- A number of hair or eyes has one digit at least. -/
theorem findSome?_longestFirst_variant {before : Char} (t : Text) :
    (((longestFirst Char.isDigit t).filter fun cut => decide (1 ≤ cut.1.length)).findSome? fun cut =>
        (nextRegistration? (lastOr before cut.1) cut.2).map fun found => TaggedLayer.mk cut.1 found)
      = variantLayer? before t := by
  cases t with
  | nil => rfl
  | cons c rest =>
      rw [longestFirst, List.filter_append, variantLayer?]
      cases hc : c.isDigit with
      | false => simp [hc]
      | true =>
          have hdigit := endsLine_of_isDigit hc
          have hrest := congrArg (Option.map fun layer : TaggedLayer => { layer with suffix := c :: layer.suffix })
            (findSome?_longestFirst_digits hdigit rest)
          rw [List.map_findSome?] at hrest
          simp only [Function.comp_def, Option.map_map] at hrest
          have hkeep : (longestFirst Char.isDigit rest).filter (fun _ => true) = longestFirst Char.isDigit rest :=
            List.filter_eq_self.2 fun _ _ => rfl
          simp [List.filter_map, Function.comp_def, List.findSome?_map, hc, lastOr_cons, hkeep, hrest]

/-- Without a registration line that starts on this line or below it there is none. -/
theorem nextRegistration?_eq_none {before : Char} {t : Text}
    (hbelow : nextRegistration? (lastOr before (t.takeWhile (· != '\n'))) (t.dropWhile (· != '\n')) = none)
    (hline : lastInLine? before t = none) : nextRegistration? before t = none := by
  induction t generalizing before with
  | nil => rfl
  | cons c rest ih =>
      by_cases hlf : c = '\n'
      · simpa [hlf, lastOr] using hbelow
      · have hc : (c != '\n') = true := by simpa using hlf
        simp only [List.takeWhile_cons, List.dropWhile_cons, hc, if_true, lastOr_cons] at hbelow
        rw [lastInLine?, if_neg hlf] at hline
        split at hline
        · contradiction
        · rename_i hlater
          rw [nextRegistration?, hline, ih hbelow hlater]
          rfl

/-- The longest suffix of an avatar takes the first character along, or it is empty. -/
theorem avatarLayer?_cons (before c : Char) (rest : Text) :
    avatarLayer? before (c :: rest)
      = (if c = '\n' then none
          else (avatarLayer? c rest).map fun layer => { layer with suffix := c :: layer.suffix }).or
        ((nextRegistration? before (c :: rest)).map fun found => TaggedLayer.mk [] found) := by
  by_cases hlf : c = '\n'
  · subst hlf
    have hlast : lastInLine? before ('\n' :: rest)
        = if startsLine (some before) (some '\n') then Registration.here? ('\n' :: rest) else none := by
      rw [lastInLine?, if_pos rfl]
    cases hnext : nextRegistration? before ('\n' :: rest) with
    | some found => simp [avatarLayer?, lastOr, hnext]
    | none =>
        have hhere : (if startsLine (some before) (some '\n') then Registration.here? ('\n' :: rest) else none)
            = none := by
          rw [nextRegistration?] at hnext
          split at hnext
          · contradiction
          · assumption
        simp [avatarLayer?, lastOr, hnext, hlast, hhere]
  · have hc : (c != '\n') = true := by simpa using hlf
    rw [if_neg hlf, avatarLayer?, avatarLayer?]
    simp only [List.takeWhile_cons, List.dropWhile_cons, hc, if_true, lastOr_cons]
    cases hbelow : nextRegistration? (lastOr c (rest.takeWhile (· != '\n'))) (rest.dropWhile (· != '\n')) with
    | some found => simp
    | none =>
        rw [lastInLine?, if_neg hlf]
        cases hlater : lastInLine? c rest with
        | some found => simp [Registration.behind]
        | none =>
            rw [nextRegistration?, nextRegistration?_eq_none hbelow hlater]
            by_cases hstart : startsLine (some before) (some c) = true
            · cases hthrough : throughRegistration? (c :: rest) <;> simp [hstart, Registration.here?, hthrough]
            · simp [hstart]

/-- The longest rest of a line in front of a registration line. -/
theorem findSome?_longestFirst_line (before : Char) (t : Text) :
    ((longestFirst (· != '\n') t).findSome? fun cut =>
        (nextRegistration? (lastOr before cut.1) cut.2).map fun found => TaggedLayer.mk cut.1 found)
      = avatarLayer? before t := by
  induction t generalizing before with
  | nil => rfl
  | cons c rest ih =>
      have hrest := congrArg (Option.map fun layer : TaggedLayer => { layer with suffix := c :: layer.suffix }) (ih c)
      rw [List.map_findSome?] at hrest
      simp only [Function.comp_def, Option.map_map] at hrest
      rw [findSome?_longestFirst_cons, avatarLayer?_cons]
      simp only [lastOr_cons, hrest]
      by_cases hlf : c = '\n' <;> simp [hlf, lastOr]

/-! ### Layers are matches -/

theorem match?_text (needle : Text) (parts : List Part) (before : Option Char) (t : Text) :
    match? (.text needle :: parts) before t = (Text.strip? needle t).bind fun rest =>
      (match? parts (needle.getLast?.or before) rest).map fun way => (needle :: way.1, way.2) := by
  rw [match?_cons, Part.cuts]
  cases Text.strip? needle t with
  | none => rfl
  | some rest => simp

/-- The pieces of a line are the line through its last registration word. -/
theorem match?_linePattern (before : Option Char) (t : Text) :
    (match? linePattern before t).map (fun way => (way.1.flatten, way.2))
      = if startsLine before t.head? then throughRegistration? t else none := by
  have hend : ∀ (before : Option Char) (t : Text), match? [] before t = some ([], t) := fun _ _ => rfl
  have hall : ∀ t : Text, (longestFirst (· != '\n') t).filter (fun cut => decide (0 ≤ cut.1.length))
      = longestFirst (· != '\n') t := fun t => List.filter_eq_self.2 (by simp)
  rw [linePattern, match?_cons, Part.cuts]
  split
  · rw [← findSome?_longestFirst_registration, List.findSome?_singleton, match?_cons, Part.cuts, hall,
      Option.map_map, List.map_findSome?]
    refine congrArg (fun f => List.findSome? f (longestFirst (· != '\n') t)) (funext fun cut => ?_)
    cases hstrip : Text.strip? registration cut.2 <;> simp [match?_text, hstrip, hend]
  · rfl

theorem match?_stretch (before : Char) (t : Text) :
    (match? (.stretch :: linePattern) (some before) t).map Registration.ofPieces = nextRegistration? before t := by
  rw [← findSome?_shortestFirst_line, match?_cons, List.map_findSome?]
  refine congrArg (fun f => List.findSome? f (shortestFirst t)) (funext fun cut => ?_)
  rw [← match?_linePattern]
  simp [Function.comp_def, Option.map_map, Registration.ofPieces]

/-- Behind the fixed part of its tag a layer is a match of the rest of the pattern. -/
theorem match?_suffixPart (gate : LayerGate) (before : Char) (t : Text) :
    (match? (gate.suffixPart :: .stretch :: linePattern) (some before) t).map TaggedLayer.ofPieces
      = match gate.kind with
        | .avatar => avatarLayer? before t
        | .hair | .eyes => variantLayer? before t := by
  have hlayer : ∀ cut : Text × Text,
      ((match? (.stretch :: linePattern) (cut.1.getLast?.or (some before)) cut.2).map fun way =>
          (cut.1 :: way.1, way.2)).map TaggedLayer.ofPieces
        = (nextRegistration? (lastOr before cut.1) cut.2).map fun found => TaggedLayer.mk cut.1 found := by
    intro cut
    have hlast : cut.1.getLast?.or (some before) = some (lastOr before cut.1) := by
      rw [lastOr]
      cases cut.1.getLast? <;> rfl
    rw [hlast, ← match?_stretch, Option.map_map, Option.map_map]
    rfl
  rw [match?_cons, List.map_findSome?]
  simp only [Function.comp_def, hlayer]
  cases hkind : gate.kind with
  | avatar =>
      have hall : (longestFirst (· != '\n') t).filter (fun cut => decide (0 ≤ cut.1.length))
          = longestFirst (· != '\n') t := List.filter_eq_self.2 (by simp)
      rw [LayerGate.suffixPart, hkind]
      simp only [Part.cuts, hall]
      exact findSome?_longestFirst_line before t
  | hair | eyes =>
      rw [LayerGate.suffixPart, hkind]
      simp only [Part.cuts]
      exact findSome?_longestFirst_variant t

namespace LayerGate

variable (gate : LayerGate)

/-- The layer in a match of the gate's pattern at the head of a text. -/
def matchedLayer? (before : Option Char) (t : Text) : Option TaggedLayer :=
  (match? gate.pattern before t).map fun way => TaggedLayer.ofPieces (way.1.tail, way.2)

/-- What a gate recognizes in any text is a match of its pattern. -/
theorem matchedLayer?_eq (before : Option Char) (t : Text) : gate.matchedLayer? before t = gate.layer? t := by
  have hlast : gate.tag.getLast?.or before = some (lastOr ' ' gate.tag) := by
    rw [lastOr, List.getLast?_eq_some_getLast gate.tag_ne_nil]
    rfl
  rw [matchedLayer?, pattern, match?_text, hlast, layer?]
  cases Text.strip? gate.tag t with
  | none => rfl
  | some rest =>
      rw [Option.bind_some, Option.map_map, Option.bind_eq_bind, Option.bind_some]
      exact match?_suffixPart gate (lastOr ' ' gate.tag) rest

/-! ### One match after the other -/

/-- The leftmost match in a text, with what stands in front of it; `before` is the character in front of the text. -/
def search? : Option Char → Text → Option (Text × TaggedLayer)
  | before, [] => (gate.matchedLayer? before []).map fun layer => ([], layer)
  | before, c :: rest =>
    match gate.matchedLayer? before (c :: rest) with
    | some layer => some ([], layer)
    | none => (search? (some c) rest).map fun found => (c :: found.1, found.2)

/-- What is found stands behind the skipped text, and the gate recognizes it there. -/
theorem of_search? {before : Option Char} {t skipped : Text} {layer : TaggedLayer}
    (h : gate.search? before t = some (skipped, layer)) :
    t = skipped ++ (gate.tag ++ layer.whole) ∧ gate.layer? (gate.tag ++ layer.whole) = some layer := by
  have hhere : ∀ {before : Option Char} {t : Text}, gate.matchedLayer? before t = some layer →
      t = gate.tag ++ layer.whole ∧ gate.layer? (gate.tag ++ layer.whole) = some layer := by
    intro before t hmatch
    rw [matchedLayer?_eq] at hmatch
    have hwhole := append_whole_of_layer? hmatch
    exact ⟨hwhole.symm, by rw [hwhole, hmatch]⟩
  induction t generalizing before skipped with
  | nil =>
      obtain ⟨found, hfound, heq⟩ := Option.map_eq_some_iff.1 h
      obtain ⟨rfl, rfl⟩ : [] = skipped ∧ found = layer := by simpa using heq
      exact hhere hfound
  | cons c rest ih =>
      rw [search?] at h
      split at h
      · rename_i found hfound
        obtain ⟨rfl, rfl⟩ : [] = skipped ∧ found = layer := by simpa using h
        exact hhere hfound
      · obtain ⟨found, hfound, heq⟩ := Option.map_eq_some_iff.1 h
        obtain ⟨rfl, rfl⟩ : c :: found.1 = skipped ∧ found.2 = layer := by simpa using heq
        obtain ⟨hwhole, hlayer⟩ := ih hfound
        exact ⟨by rw [hwhole, List.cons_append], hlayer⟩

/-- What is left to search gets shorter with each match. -/
theorem length_of_search? {before : Option Char} {t skipped : Text} {layer : TaggedLayer}
    (h : gate.search? before t = some (skipped, layer)) :
    layer.registered.whole.length < t.length ∧ layer.registered.rest.length < t.length := by
  have htag : 0 < gate.tag.length := List.length_pos_iff.2 gate.tag_ne_nil
  rw [(gate.of_search? h).1]
  simp only [TaggedLayer.whole, Registration.whole, List.length_append]
  omega

/-- A pass of the gate as a loop over matches: an accessory's tag is passed, any other layer is guarded and counted,
    and the search goes on behind what was read. -/
def loop (selection : Text) (before : Option Char) (t : Text) : Rewrite :=
  match h : gate.search? before t with
  | none => ⟨t, 0⟩
  | some (skipped, layer) =>
    let tagged := gate.tag ++ layer.suffix
    if gate.kind = .avatar && isAccessory layer.suffix then
      let later := loop selection tagged.getLast? layer.registered.whole
      ⟨skipped ++ tagged ++ later.text, later.replacements⟩
    else
      let guard := gate.guard selection layer.suffix
      let line := layer.registered.line
      let later := loop selection line.getLast? layer.registered.rest
      ⟨skipped ++ tagged ++ layer.registered.gap ++ (if guard.isPrefixOf line then [] else guard) ++ line ++ later.text,
        later.replacements + 1⟩
termination_by t.length
decreasing_by
  · exact (gate.length_of_search? h).1
  · exact (gate.length_of_search? h).2

/-- Up to the leftmost match a sweep keeps everything. -/
theorem script_search? (selection : Text) (before : Option Char) (t : Text) :
    (gate.recognizer selection).script t = match gate.search? before t with
      | none => Script.keeps t
      | some (skipped, layer) =>
        Script.keeps skipped ++ (gate.recognizer selection).script (gate.tag ++ layer.whole) := by
  induction t generalizing before with
  | nil =>
      cases hsearch : gate.search? before [] with
      | none => rfl
      | some found =>
          have hnil := (List.append_eq_nil_iff.1 (List.append_eq_nil_iff.1 (gate.of_search? hsearch).1.symm).2).1
          exact absurd hnil gate.tag_ne_nil
  | cons c rest ih =>
      rw [search?, matchedLayer?_eq]
      cases hlayer : gate.layer? (c :: rest) with
      | some layer => simp [append_whole_of_layer? hlayer]
      | none =>
          have hnone := gate.recognizer_eq_none selection hlayer none
          rw [Recognizer.script_cons_of_none (fun _ _ => rfl) hnone, ih (some c)]
          cases gate.search? (some c) rest <;> rfl

/-- The loop over matches and the sweep of the gate write the same text and count the same, in any text. -/
theorem loop_eq_script (selection : Text) (before : Option Char) (t : Text) :
    gate.loop selection before t = .ofScript ((gate.recognizer selection).script t) := by
  induction hlength : t.length using Nat.strongRecOn generalizing before t with
  | ind n ih =>
      subst hlength
      rw [loop, gate.script_search? selection before t]
      cases hsearch : gate.search? before t with
      | none => simp [Rewrite.ofScript]
      | some found =>
          obtain ⟨skipped, layer⟩ := found
          obtain ⟨-, hlayer⟩ := gate.of_search? hsearch
          obtain ⟨hshorter, hshorter'⟩ := gate.length_of_search? hsearch
          dsimp only
          split
          · rename_i haccessory
            rw [ih _ hshorter _ _ rfl, script_of_accessory selection hlayer haccessory]
            simp [Rewrite.ofScript, Edit.result]
          · rename_i hguarded
            rw [ih _ hshorter' _ _ rfl, script_of_guarded selection hlayer (Bool.eq_false_iff.2 hguarded)]
            simp [Rewrite.ofScript, Edit.result, inserted]

end LayerGate

end CanvasExport.Rule
