/-
Module: CanvasExport.CommandLine.Request
Layer: CommandLine
Purpose: What the arguments of a command line ask for. They are read from left to right, and the first that
  decides something ends the reading: a call for help or for the version, or a mistake. No option may be
  given twice, and long names are given in full. Arguments are bytes: a path may be any, every other value is text.
Main exports: CommandLine.Request, CommandLine.Answer, CommandLine.Argument, CommandLine.parse
-/
import CanvasExport.File.Path
import CanvasExport.Options.Basic

namespace CanvasExport.CommandLine

/-- The options and the file that have been given so far. -/
structure Request where
  force : Bool
  noBackup : Bool
  keepAssetPath : Bool
  json : Bool
  variant : Option Variant
  palette : Option Path
  onUnmatched : Option UnmatchedPolicy
  file : Option Path
deriving DecidableEq, Repr, Inhabited

/-- Nothing given. -/
def Request.blank : Request :=
  ⟨false, false, false, false, none, none, none, none⟩

/-- What a command line comes to. -/
inductive Answer where
  | shortHelp
  | longHelp
  | version
  /-- The arguments make no sense. -/
  | usage
  | run (request : Request)
deriving DecidableEq, Repr, Inhabited

/-- Options without a value. -/
inductive Flag where
  | force
  | noBackup
  | keepAssetPath
  | json
  | shortHelp
  | longHelp
  | version
deriving DecidableEq, Repr, Inhabited

/-- Options with a value. -/
inductive Setting where
  | variant
  | palette
  | onUnmatched
deriving DecidableEq, Repr, Inhabited

/-- An option by whether it takes a value. -/
inductive OptionKind where
  | flag (flag : Flag)
  | setting (setting : Setting)
deriving DecidableEq, Repr, Inhabited

/-- The byte that options begin with. -/
def hyphen : UInt8 := 0x2D

/-- The byte between an option and its value. -/
def equalsSign : UInt8 := 0x3D

/-- The option of a letter behind a single hyphen. -/
def shortOption? (letter : UInt8) : Option OptionKind :=
  match Char.ofNat letter.toNat with
  | 'f' => some (.flag .force)
  | 'n' => some (.flag .noBackup)
  | 'a' | 'c' => some (.flag .keepAssetPath)
  | 'p' => some (.setting .palette)
  | 'h' => some (.flag .shortHelp)
  | 'V' => some (.flag .version)
  | _ => none

/-- The options by their long names. -/
def longOptions : List (Text × OptionKind) := [
  ("force".toList, .flag .force),
  ("no-backup".toList, .flag .noBackup),
  ("keep-asset-path".toList, .flag .keepAssetPath),
  ("variant".toList, .setting .variant),
  ("palette".toList, .setting .palette),
  ("on-unmatched".toList, .setting .onUnmatched),
  ("json".toList, .flag .json),
  ("help".toList, .flag .longHelp),
  ("version".toList, .flag .version)]

namespace Request

/-- The request with a flag given; a second time is a mistake. -/
def give (r : Request) : Flag → Except Answer Request
  | .force => if r.force then throw .usage else return { r with force := true }
  | .noBackup => if r.noBackup then throw .usage else return { r with noBackup := true }
  | .keepAssetPath => if r.keepAssetPath then throw .usage else return { r with keepAssetPath := true }
  | .json => if r.json then throw .usage else return { r with json := true }
  | .shortHelp => throw .shortHelp
  | .longHelp => throw .longHelp
  | .version => throw .version

/-- What bytes name in a table, if they are text. -/
def namedBy? {α : Type} (table : List (Text × α)) (name : Bytes) : Option α := do
  table.lookup (← Text.ofBytes? name)

/-- The choice that a value names; none is a mistake. -/
def choose {α : Type} (choices : List (Text × α)) (value : Bytes) : Except Answer α :=
  match namedBy? choices value with
  | some choice => return choice
  | none => throw .usage

/-- The request with an option's value; a second or an empty one is a mistake. -/
def assign (r : Request) (setting : Setting) (value : Bytes) : Except Answer Request :=
  match setting with
  | .variant =>
    if r.variant.isSome then throw .usage
    else return { r with variant := some (← choose Variant.choices value) }
  | .onUnmatched =>
    if r.onUnmatched.isSome then throw .usage
    else return { r with onUnmatched := some (← choose UnmatchedPolicy.choices value) }
  | .palette =>
    if r.palette.isSome || value.isEmpty then throw .usage
    else return { r with palette := some value }

/-- The request with its file; a second or an empty name is a mistake. -/
def name (r : Request) (file : Path) : Except Answer Request :=
  if r.file.isSome || file.isEmpty then throw .usage else return { r with file := some file }

/-- The letters behind a hyphen. A letter that takes a value takes the rest, without one equals sign in
    front; if nothing is left, the next argument is the value. -/
def cluster (r : Request) : Bytes → Except Answer (Request × Option Setting)
  | [] => return (r, none)
  | letter :: rest =>
    match shortOption? letter with
    | none => throw .usage
    | some (.flag flag) => do (← r.give flag).cluster rest
    | some (.setting setting) =>
      match rest with
      | [] => return (r, some setting)
      | b :: value => return (← r.assign setting (if b = equalsSign then value else rest), none)

/-- A long option, with a value behind an equals sign or without one. -/
def long (r : Request) (option : Bytes) : Except Answer (Request × Option Setting) :=
  let name := option.takeWhile (· != equalsSign)
  match namedBy? longOptions name, option.drop name.length with
  | none, _ => throw .usage
  | some (.flag flag), [] => return (← r.give flag, none)
  | some (.flag _), _ :: _ => throw .usage
  | some (.setting setting), [] => return (r, some setting)
  | some (.setting setting), _ :: value => return (← r.assign setting value, none)

end Request

/-- What an argument is by itself. -/
inductive Argument where
  /-- Two hyphens alone; behind them there are only names. -/
  | separator
  | long (option : Bytes)
  | cluster (letters : Bytes)
  | name (name : Bytes)
deriving DecidableEq, Repr, Inhabited

/-- An argument by its hyphens; a hyphen alone is a name. -/
def Argument.ofBytes : Bytes → Argument
  | first :: second :: rest =>
    if first ≠ hyphen then .name (first :: second :: rest)
    else if second ≠ hyphen then .cluster (second :: rest)
    else if rest = [] then .separator
    else .long rest
  | short => .name short

/-- Reads the arguments. `awaiting` is the option whose value comes next; no option can be one. -/
def readArguments (namesOnly : Bool) (awaiting : Option Setting) (r : Request) :
    List Bytes → Except Answer Request
  | [] => if awaiting.isSome then throw .usage else return r
  | argument :: rest => do
    if namesOnly then
      readArguments true none (← r.name argument) rest
    else
      match awaiting, Argument.ofBytes argument with
      | some setting, .name value => readArguments false none (← r.assign setting value) rest
      | some _, _ => throw .usage
      | none, .separator => readArguments true none r rest
      | none, .long option =>
        let (r, awaiting) ← r.long option
        readArguments false awaiting r rest
      | none, .cluster letters =>
        let (r, awaiting) ← r.cluster letters
        readArguments false awaiting r rest
      | none, .name name => readArguments false none (← r.name name) rest

/-- What the arguments ask for. -/
def parse (arguments : List Bytes) : Answer :=
  match readArguments false none .blank arguments with
  | .ok request => .run request
  | .error answer => answer

end CanvasExport.CommandLine
