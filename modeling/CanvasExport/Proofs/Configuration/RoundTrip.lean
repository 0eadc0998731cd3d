/-
Module: CanvasExport.Proofs.Configuration.RoundTrip
Layer: Proofs
Purpose: Palettes and options read back from their JSON. A text that holds some members of the object of a palette
  or of options, each at most once and in any order, parses to the value with those fields, and with the standard
  values for all others; so the whole object parses to the value itself.
Main exports: ColorTable.reads_read, Palette.merge, Palette.readsField, Options.merge, Options.readsField,
  parse_document
-/
import CanvasExport.Options.Json
import CanvasExport.Palette.Json
import CanvasExport.Proofs.Json.Record

namespace CanvasExport

/-! ### Color tables -/

namespace ColorTable

theorem eq_of_entries {a b : ColorTable} (h : a.entries = b.entries) : a = b := by
  cases a
  cases b
  obtain rfl := h
  rfl

/-- An entry behind all others goes to the end. -/
theorem insertEntry_of_last {color slot : Text} {entries : List (Text × Text)}
    (h : ∀ entry ∈ entries, entry.1.precedes color = true) :
    insertEntry color slot entries = entries ++ [(color, slot)] := by
  induction entries with
  | nil => rfl
  | cons entry rest ih =>
      rw [List.forall_mem_cons] at h
      -- The new key neither precedes nor equals one that precedes it.
      have hnot : color.precedes entry.1 = false := by
        rw [Bool.eq_false_iff]
        intro hback
        have hself := Text.precedes_trans h.1 hback
        rw [Text.precedes_irrefl] at hself
        contradiction
      have hne : color ≠ entry.1 := by
        rintro rfl
        have hself := h.1
        rw [Text.precedes_irrefl] at hself
        contradiction
      rw [insertEntry, if_neg (by simp [hnot]), if_neg hne, ih h.2]
      rfl

/-- Ascending entries make up the table that they are inserted into one after the other. -/
theorem entries_foldl_insert {table : ColorTable} {rest : List (Text × Text)}
    (h : (table.entries ++ rest).Pairwise fun a b => a.1.precedes b.1) :
    (rest.foldl (fun table entry => table.insert entry.1 entry.2) table).entries = table.entries ++ rest := by
  induction rest generalizing table with
  | nil => simp
  | cons entry rest ih =>
      have hlast : ∀ early ∈ table.entries, early.1.precedes entry.1 = true := fun early hmem =>
        (List.pairwise_append.1 h).2.2 early hmem entry List.mem_cons_self
      have hentries : (table.insert entry.1 entry.2).entries = table.entries ++ [entry] := insertEntry_of_last hlast
      have hrest := @ih (table.insert entry.1 entry.2) (by rw [hentries]; simpa using h)
      rw [List.foldl_cons, hrest, hentries, List.append_assoc, List.singleton_append]

theorem foldl_insert_entries (table : ColorTable) :
    table.entries.foldl (fun table entry => table.insert entry.1 entry.2) empty = table :=
  eq_of_entries (entries_foldl_insert table.ascending)

theorem handles_entries (table : ColorTable) (entries : List (Text × Text)) :
    Json.Handles (fun table color => do Json.readColon; return table.insert color (← Json.readText)) table
      (entries.map fun entry => (entry.1, .string entry.2))
      (entries.foldl (fun table entry => table.insert entry.1 entry.2) table) := by
  induction entries generalizing table with
  | nil => exact .nil table
  | cons entry entries ih =>
      refine .cons (fun before v rest hbefore hvalue hrest => ?_) (ih _)
      rw [Json.bind_of_eq_ok (Json.readColon_of_blanks hbefore _),
        Json.bind_of_eq_ok (Json.reads_readText entry.2 v rest hvalue hrest)]
      rfl

/-- A table is read back from its object. -/
theorem reads_read (table : ColorTable) : Json.Reads read table.toJson table := by
  intro t rest ht _
  have hhandles := handles_entries empty table.entries
  rw [foldl_insert_entries] at hhandles
  cases ht with
  | @object blanks hblanks _ t hmembers =>
      have hvalue := @Json.peekValue_of_blanks blanks (t ++ rest) '\x7b' hblanks rfl
      rw [List.append_assoc, List.cons_append, read, Json.bind_of_eq_ok hvalue, if_pos rfl,
        Json.bind_of_eq_ok (Json.skip_cons _ _)]
      exact Json.readMembers_of_handles hhandles hmembers rest

end ColorTable

/-! ### Palettes -/

namespace Palette

/-- The palette with the named fields taken from `palette` and all others from `base`. -/
def merge (palette : Palette) (names : List Text) (base : Palette) : Palette where
  engineMinVersion := if "engineMinVersion".toList ∈ names then palette.engineMinVersion else base.engineMinVersion
  figures := if "figures".toList ∈ names then palette.figures else base.figures
  paletteGlobal := if "paletteGlobal".toList ∈ names then palette.paletteGlobal else base.paletteGlobal
  paletteTable := if "paletteTable".toList ∈ names then palette.paletteTable else base.paletteTable
  colors := if "colors".toList ∈ names then palette.colors else base.colors

theorem merges_merge (palette : Palette) : Json.Merges palette.merge where
  nil base := by simp [merge]
  cons name names base := by simp only [merge, Json.ite_mem_cons]

theorem colors_standard : standard.colors = {
    entries := [
      ("#663300".toList, "hairA".toList), ("#666600".toList, "eyeA".toList),
      ("#70618D".toList, "outfitB".toList), ("#E5CCFF".toList, "outfitA".toList),
      ("#F49E50".toList, "skinB".toList), ("#FFCC99".toList, "skinA".toList)]
    ascending := by decide } :=
  ColorTable.eq_of_entries (by decide)

/-- Each member of a palette's object is read by its field. -/
theorem readsField {palette : Palette} {member : Text × Json} (h : member ∈ palette.toJson.members) :
    Json.ReadsField fields palette.merge member := by
  simp only [toJson, Json.members, List.mem_cons, List.not_mem_nil, or_false] at h
  rcases h with rfl | rfl | rfl | rfl | rfl
  · exact ⟨_, rfl, fun base => (Json.reads_readText palette.engineMinVersion).map fun read =>
      { base with engineMinVersion := read }⟩
  · exact ⟨_, rfl, fun base => (Json.reads_readWord palette.figures).map fun read => { base with figures := read }⟩
  · exact ⟨_, rfl, fun base => (Json.reads_readText palette.paletteGlobal).map fun read =>
      { base with paletteGlobal := read }⟩
  · exact ⟨_, rfl, fun base => (Json.reads_readText palette.paletteTable).map fun read =>
      { base with paletteTable := read }⟩
  · exact ⟨_, rfl, fun base => (ColorTable.reads_read palette.colors).map fun read => { base with colors := read }⟩

theorem selects_members (palette : Palette) : Json.Selects palette.toJson.members palette.toJson where
  subset _ hmem := hmem
  distinct := by
    change ["engineMinVersion".toList, "figures".toList, "paletteGlobal".toList, "paletteTable".toList,
      "colors".toList].Nodup
    decide

/-- With all its fields a palette is merged into itself. -/
theorem merge_all (palette base : Palette) : palette.merge (palette.toJson.members.map Prod.fst) base = palette := by
  rfl

end Palette

/-! ### Options -/

theorem Variant.lookup_choices (variant : Variant) : choices.lookup variant.text = some variant := by
  cases variant <;> rfl

theorem UnmatchedPolicy.lookup_choices (policy : UnmatchedPolicy) : choices.lookup policy.text = some policy := by
  cases policy <;> rfl

theorem PublishedPolicy.lookup_choices (policy : PublishedPolicy) : choices.lookup policy.text = some policy := by
  cases policy <;> rfl

namespace Options

/-- The options with the named fields taken from `options` and all others from `base`. -/
def merge (options : Options) (names : List Text) (base : Options) : Options where
  variant := if "variant".toList ∈ names then options.variant else base.variant
  force := if "force".toList ∈ names then options.force else base.force
  backup := if "backup".toList ∈ names then options.backup else base.backup
  remapAssetPath := if "remapAssetPath".toList ∈ names then options.remapAssetPath else base.remapAssetPath
  onUnmatched := if "onUnmatched".toList ∈ names then options.onUnmatched else base.onUnmatched
  onAlreadyPublished :=
    if "onAlreadyPublished".toList ∈ names then options.onAlreadyPublished else base.onAlreadyPublished

theorem merges_merge (options : Options) : Json.Merges options.merge where
  nil base := by simp [merge]
  cons name names base := by simp only [merge, Json.ite_mem_cons]

/-- Each member of the options' object is read by its field. -/
theorem readsField {options : Options} {member : Text × Json} (h : member ∈ options.toJson.members) :
    Json.ReadsField fields options.merge member := by
  simp only [toJson, Json.members, List.mem_cons, List.not_mem_nil, or_false] at h
  rcases h with rfl | rfl | rfl | rfl | rfl | rfl
  · exact ⟨_, rfl, fun base => (Json.reads_readChoice (options.variant.lookup_choices)).map fun read =>
      { base with variant := read }⟩
  · exact ⟨_, rfl, fun base => (Json.reads_readBool options.force).map fun read => { base with force := read }⟩
  · exact ⟨_, rfl, fun base => (Json.reads_readBool options.backup).map fun read => { base with backup := read }⟩
  · exact ⟨_, rfl, fun base => (Json.reads_readBool options.remapAssetPath).map fun read =>
      { base with remapAssetPath := read }⟩
  · exact ⟨_, rfl, fun base => (Json.reads_readChoice (options.onUnmatched.lookup_choices)).map fun read =>
      { base with onUnmatched := read }⟩
  · exact ⟨_, rfl, fun base =>
      (Json.reads_readChoice (options.onAlreadyPublished.lookup_choices)).map fun read =>
        { base with onAlreadyPublished := read }⟩

theorem selects_members (options : Options) : Json.Selects options.toJson.members options.toJson where
  subset _ hmem := hmem
  distinct := by
    change ["variant".toList, "force".toList, "backup".toList, "remapAssetPath".toList, "onUnmatched".toList,
      "onAlreadyPublished".toList].Nodup
    decide

/-- With all their fields options are merged into themselves. -/
theorem merge_all (options base : Options) : options.merge (options.toJson.members.map Prod.fst) base = options := by
  rfl

end Options

/-! ### Round trips -/

/-- Configurations are read back from their JSON. A document that holds some of the fields, in any order, parses to
    the value with the standard values for all others; a document of the whole object parses to the value. -/
theorem parse_document :
    (∀ j : Json, Json.Document j j.compact ∧ Json.Document j (j.indented 0))
    ∧ (∀ (palette : Palette) (t : Text), Json.Document palette.toJson t → Palette.parse t = .ok palette)
    ∧ (∀ (palette : Palette) (members : List (Text × Json)) (t : Text), Json.Selects members palette.toJson →
        Json.Document (.object members) t →
        Palette.parse t = .ok {
          engineMinVersion :=
            if "engineMinVersion".toList ∈ members.map Prod.fst then palette.engineMinVersion else "1.0.0".toList
          figures := if "figures".toList ∈ members.map Prod.fst then palette.figures else 2
          paletteGlobal :=
            if "paletteGlobal".toList ∈ members.map Prod.fst then palette.paletteGlobal else "avatarPalette".toList
          paletteTable :=
            if "paletteTable".toList ∈ members.map Prod.fst then palette.paletteTable else "assetPalettes".toList
          colors := if "colors".toList ∈ members.map Prod.fst then palette.colors else {
            entries := [
              ("#663300".toList, "hairA".toList), ("#666600".toList, "eyeA".toList),
              ("#70618D".toList, "outfitB".toList), ("#E5CCFF".toList, "outfitA".toList),
              ("#F49E50".toList, "skinB".toList), ("#FFCC99".toList, "skinA".toList)]
            ascending := by decide } })
    ∧ (∀ (options : Options) (t : Text), Json.Document options.toJson t → Options.parse t = .ok options)
    ∧ (∀ (options : Options) (members : List (Text × Json)) (t : Text), Json.Selects members options.toJson →
        Json.Document (.object members) t →
        Options.parse t = .ok {
          variant := if "variant".toList ∈ members.map Prod.fst then options.variant else .aliased
          force := if "force".toList ∈ members.map Prod.fst then options.force else false
          backup := if "backup".toList ∈ members.map Prod.fst then options.backup else true
          remapAssetPath :=
            if "remapAssetPath".toList ∈ members.map Prod.fst then options.remapAssetPath else true
          onUnmatched := if "onUnmatched".toList ∈ members.map Prod.fst then options.onUnmatched else .ignore
          onAlreadyPublished :=
            if "onAlreadyPublished".toList ∈ members.map Prod.fst then options.onAlreadyPublished else .fail }) := by
  have hpalette := fun (palette : Palette) (members : List (Text × Json)) (t : Text) h ht =>
    @Json.parse_readRecord Palette Palette.fields palette.merge palette.merges_merge "struct PaletteConfig".toList
      palette.toJson (fun _ => Palette.readsField) .standard members h t ht
  have hoptions := fun (options : Options) (members : List (Text × Json)) (t : Text) h ht =>
    @Json.parse_readRecord Options Options.fields options.merge options.merges_merge "struct PublishOptions".toList
      options.toJson (fun _ => Options.readsField) .standard members h t ht
  refine ⟨fun j => ⟨Json.document_compact j, Json.document_indented j⟩, fun palette t ht => ?_,
    fun palette members t h ht => (hpalette palette members t h ht).trans ?_, fun options t ht => ?_, hoptions⟩
  · rw [Palette.parse, hpalette palette palette.toJson.members t palette.selects_members ht, Palette.merge_all]
  · rw [Palette.merge, Palette.colors_standard]
    rfl
  · rw [Options.parse, hoptions options options.toJson.members t options.selects_members ht, Options.merge_all]

/-- A palette with texts that need escapes and texts beyond ASCII. -/
def escapedPalette : Palette where
  engineMinVersion := "\x01\t".toList
  figures := 4294967295
  paletteGlobal := "\"\\\n😀".toList
  paletteTable := "é\x7f".toList
  colors := .ofList [("#\"".toList, "\x1f".toList), ("".toList, "/".toList)]

/-- Two of its fields, with and without the colors. -/
theorem parse_document_escapedPalette :
    Palette.parse (Json.object [
        ("colors".toList, escapedPalette.colors.toJson),
        ("paletteGlobal".toList, .string escapedPalette.paletteGlobal)]).compact
      = .ok { Palette.standard with
          paletteGlobal := escapedPalette.paletteGlobal
          colors := escapedPalette.colors }
    ∧ Palette.parse (Json.object [
        ("paletteGlobal".toList, .string escapedPalette.paletteGlobal),
        ("figures".toList, .number escapedPalette.figures.toNat)]).compact
      = .ok {
          engineMinVersion := "1.0.0".toList
          figures := 4294967295
          paletteGlobal := "\"\\\n😀".toList
          paletteTable := "assetPalettes".toList
          colors := {
            entries := [
              ("#663300".toList, "hairA".toList), ("#666600".toList, "eyeA".toList),
              ("#70618D".toList, "outfitB".toList), ("#E5CCFF".toList, "outfitA".toList),
              ("#F49E50".toList, "skinB".toList), ("#FFCC99".toList, "skinA".toList)]
            ascending := by decide } } := by
  obtain ⟨hdocument, -, hparse, -⟩ := parse_document
  refine ⟨hparse escapedPalette _ _ ⟨?_, by decide⟩ (hdocument _).1,
    hparse escapedPalette _ _ ⟨?_, by decide⟩ (hdocument _).1⟩
  all_goals
    intro member hmem
    simp only [List.mem_cons, List.not_mem_nil, or_false] at hmem
    rcases hmem with rfl | rfl <;> simp [Palette.toJson, Json.members]

end CanvasExport
