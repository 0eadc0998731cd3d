/-
Module: CanvasExport.Options.Json
Layer: Options
Purpose: Publishing options as JSON. Options are written with all their fields; when they are read, a missing
  field keeps its standard value.
Main exports: Options.toJson, Options.fields, Options.parse
-/
import CanvasExport.Json.Record
import CanvasExport.Json.Value
import CanvasExport.Options.Basic

namespace CanvasExport.Options

def toJson (options : Options) : Json :=
  .object [
    ("variant".toList, .string options.variant.text),
    ("force".toList, .bool options.force),
    ("backup".toList, .bool options.backup),
    ("remapAssetPath".toList, .bool options.remapAssetPath),
    ("onUnmatched".toList, .string options.onUnmatched.text),
    ("onAlreadyPublished".toList, .string options.onAlreadyPublished.text)]

/-- The fields in the order in which a list gives them. -/
def fields : List (Json.Field Options) := [
  ⟨"variant".toList, fun o => return { o with variant := ← Json.readChoice Variant.choices }⟩,
  ⟨"force".toList, fun o => return { o with force := ← Json.readBool }⟩,
  ⟨"backup".toList, fun o => return { o with backup := ← Json.readBool }⟩,
  ⟨"remapAssetPath".toList, fun o => return { o with remapAssetPath := ← Json.readBool }⟩,
  ⟨"onUnmatched".toList, fun o => return { o with onUnmatched := ← Json.readChoice UnmatchedPolicy.choices }⟩,
  ⟨"onAlreadyPublished".toList,
    fun o => return { o with onAlreadyPublished := ← Json.readChoice PublishedPolicy.choices }⟩]

/-- Reads options from a configuration text. -/
def parse (t : Text) : Except Json.Error Options :=
  Json.parse (Json.readRecord "struct PublishOptions".toList fields standard) t

end CanvasExport.Options
