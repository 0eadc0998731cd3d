/-
Module: CanvasExport.CommandLine.Help
Layer: CommandLine
Purpose: The texts that the program prints about itself.
Main exports: versionText, shortHelp, longHelp
-/
import CanvasExport.Palette.Basic

namespace CanvasExport.CommandLine

/-- The lines of a text, each with its line feed. -/
def linesText (lines : List String) : Text :=
  lines.flatMap fun line => line.toList ++ ['\n']

def versionText : Text :=
  "animate-publish ".toList ++ engineVersion ++ ['\n']

/-- One line for each argument. -/
def shortHelp : Text :=
  linesText [
    "Prepare an Adobe Animate canvas export for the simulation",
    "",
    "Usage: animate-publish [OPTIONS] [FILE]",
    "",
    "Arguments:",
    "  [FILE]  Exported `.js` file to rewrite in place",
    "",
    "Options:",
    "  -f, --force                        Publish even if the file is already marked as published",
    "  -n, --no-backup                    Do not write a `<name>.orig.js` backup copy",
    "  -a, --keep-asset-path              Do not replace cached bitmap `images/` references",
    "      --variant <VARIANT>            Export dialect to rewrite for [default: aliased] [possible values: aliased, indexed]",
    "  -p, --palette <PALETTE>            Palette config JSON (built-in table if omitted)",
    "      --on-unmatched <ON_UNMATCHED>  What to do when a rule finds nothing to rewrite [default: ignore] [possible values: ignore, warn, fail]",
    "      --json                         Print the publish report as JSON",
    "  -h, --help                         Print help (see more with '--help')",
    "  -V, --version                      Print version"]

/-- A paragraph for each argument. -/
def longHelp : Text :=
  linesText [
    "Prepare an Adobe Animate canvas export for the simulation",
    "",
    "Usage: animate-publish [OPTIONS] [FILE]",
    "",
    "Arguments:",
    "  [FILE]",
    "          Exported `.js` file to rewrite in place",
    "",
    "Options:",
    "  -f, --force",
    "          Publish even if the file is already marked as published",
    "",
    "  -n, --no-backup",
    "          Do not write a `<name>.orig.js` backup copy",
    "",
    "  -a, --keep-asset-path",
    "          Do not replace cached bitmap `images/` references",
    "",
    "      --variant <VARIANT>",
    "          Export dialect to rewrite for",
    "",
    "          Possible values:",
    "          - aliased: One palette, aliased locally as `this.assetPalette`",
    "          - indexed: N palettes, addressed by indices embedded in `#C0PPSS` literals",
    "          ",
    "          [default: aliased]",
    "",
    "  -p, --palette <PALETTE>",
    "          Palette config JSON (built-in table if omitted)",
    "",
    "      --on-unmatched <ON_UNMATCHED>",
    "          What to do when a rule finds nothing to rewrite",
    "          ",
    "          [default: ignore]",
    "          [possible values: ignore, warn, fail]",
    "",
    "      --json",
    "          Print the publish report as JSON",
    "",
    "  -h, --help",
    "          Print help (see a summary with '-h')",
    "",
    "  -V, --version",
    "          Print version"]

end CanvasExport.CommandLine
