import LineCensus.Diagnostic
import LineCensus.Report.Format

/-!
# The command line

Arguments are read one after the other. An option's value may stand in the same
argument or in the next one; it is taken in only when the argument after it is known,
so a fault further on may be found first.
-/
namespace LineCensus.Settings

/-- What a command line asks for. -/
structure CommandLine where
  directory : Path := ⟨"."⟩
  includes : List String := []
  excludes : List String := []
  noGitignore : Bool := false
  languageConf : Option Path := none
  format : Option Report.Format := none
  outputDir : Option Path := none
  generateResults : Bool := false
  noTextResults : Bool := false
  noMarkdownResults : Bool := false
  includeUnsupported : Bool := false
  includeIncompleteLine : Bool := false
  noCommas : Bool := false
  config : Option Path := none
  noConfig : Bool := false
  quiet : Bool := false
  color : ColorMode := .auto
  listLanguages : Bool := false
deriving DecidableEq, Repr, Inhabited

/-- Why a command line is not run. Asking for help or for the version is no fault. -/
inductive CommandFault
  | unknownArgument (argument : String)
  /-- A value is missing, empty where there must be something, or none of the choices. -/
  | invalidValue (argument : String)
  /-- A value cannot be read. -/
  | unreadableValue (argument message : String)
  /-- An argument that may be given once is given again. -/
  | conflict (argument : String)
  /-- A value is given to an argument that takes none. -/
  | tooManyValues (argument : String)
  | help
  | version
deriving DecidableEq, Repr

/-- The exit code of a command line that is not run. -/
def CommandFault.exitCode : CommandFault → Nat
  | help => 0
  | version => 0
  | _ => 2

/-- Arguments without a value. -/
inductive Switch
  | noGitignore
  | generateResults
  | noTextResults
  | noMarkdownResults
  | includeUnsupported
  | includeIncompleteLine
  | noCommas
  | noConfig
  | quiet
  | listLanguages
  | help
  | version
deriving DecidableEq, Repr

/-- Arguments with a value; the directory is the one without a name. -/
inductive Slot
  | directory
  | includes
  | excludes
  | languageConf
  | format
  | outputDir
  | config
  | color
deriving DecidableEq, Repr

inductive Argument
  | switch (s : Switch)
  | slot (s : Slot)
deriving DecidableEq, Repr

namespace Argument

/-- All arguments with a name, their long names and their letters. -/
def table : List (Argument × String × Option Char) := [
  (.slot .includes, "include", some 'i'),
  (.slot .excludes, "exclude", some 'e'),
  (.switch .noGitignore, "no-gitignore", none),
  (.slot .languageConf, "language-conf", none),
  (.slot .format, "format", some 'f'),
  (.slot .outputDir, "output-dir", some 'o'),
  (.switch .generateResults, "generate-results", none),
  (.switch .noTextResults, "no-text-results", none),
  (.switch .noMarkdownResults, "no-markdown-results", none),
  (.switch .includeUnsupported, "include-unsupported", none),
  (.switch .includeIncompleteLine, "include-incomplete-line", none),
  (.switch .noCommas, "no-commas", none),
  (.slot .config, "config", some 'c'),
  (.switch .noConfig, "no-config", none),
  (.switch .quiet, "quiet", some 'q'),
  (.slot .color, "color", none),
  (.switch .listLanguages, "list-languages", none),
  (.switch .help, "help", some 'h'),
  (.switch .version, "version", some 'V')]

def ofLong? (name : String) : Option Argument :=
  (table.find? fun row => row.2.1 == name).map (·.1)

def ofShort? (c : Char) : Option Argument :=
  (table.find? fun row => row.2.2 == some c).map (·.1)

/-- How messages call an argument. -/
def shown (a : Argument) : String :=
  match table.find? fun row => row.1 == a with
  | some row => "--" ++ row.2.1
  | none => "[DIRECTORY]"

end Argument

namespace Slot

/-- An argument that may be given more than once. -/
def repeats : Slot → Bool
  | .includes => true
  | .excludes => true
  | _ => false

def shown (s : Slot) : String := (Argument.slot s).shown

/-- A path must not be empty. -/
def path (s : Slot) (value : String) : Except CommandFault Path :=
  if value.isEmpty then .error (.invalidValue s.shown) else .ok ⟨value⟩

/-- Takes a value in. -/
def apply (line : CommandLine) (value : String) : Slot → Except CommandFault CommandLine
  | .directory => (path .directory value).map fun p => { line with directory := p }
  | .includes => .ok { line with includes := line.includes ++ [value] }
  | .excludes => .ok { line with excludes := line.excludes ++ [value] }
  | .languageConf => (path .languageConf value).map fun p => { line with languageConf := some p }
  | .format =>
    match Report.Format.ofAnyName? value with
    | some f => .ok { line with format := some f }
    | none =>
      .error (.unreadableValue (shown .format) (Report.Format.unknownMessage value))
  | .outputDir => (path .outputDir value).map fun p => { line with outputDir := some p }
  | .config => (path .config value).map fun p => { line with config := some p }
  | .color =>
    match ColorMode.ofName? value with
    | some mode => .ok { line with color := mode }
    | none => .error (.invalidValue (shown .color))

end Slot

/-- Sets a switch. -/
def Switch.apply (line : CommandLine) : Switch → Except CommandFault CommandLine
  | .noGitignore => .ok { line with noGitignore := true }
  | .generateResults => .ok { line with generateResults := true }
  | .noTextResults => .ok { line with noTextResults := true }
  | .noMarkdownResults => .ok { line with noMarkdownResults := true }
  | .includeUnsupported => .ok { line with includeUnsupported := true }
  | .includeIncompleteLine => .ok { line with includeIncompleteLine := true }
  | .noCommas => .ok { line with noCommas := true }
  | .noConfig => .ok { line with noConfig := true }
  | .quiet => .ok { line with quiet := true }
  | .listLanguages => .ok { line with listLanguages := true }
  | .help => .error .help
  | .version => .error .version

/-- An argument whose value is still to be taken in, and the value if it is there. -/
structure Pending where
  slot : Slot
  value : Option String
deriving DecidableEq, Repr

/-- How far a command line has been read. -/
structure CommandReader where
  line : CommandLine := {}
  /-- Arguments taken in that may be given once. -/
  given : List Argument := []
  pending : Option Pending := none
  /-- Every argument from here on is a directory. -/
  namesOver : Bool := false
  hasDirectory : Bool := false
deriving DecidableEq, Repr

namespace CommandReader

/-- Marks an argument as given, if it may be. -/
def give (r : CommandReader) (a : Argument) : Except CommandFault CommandReader :=
  if a ∈ r.given then .error (.conflict a.shown) else .ok { r with given := a :: r.given }

/-- Takes a value in. -/
def takeValue (r : CommandReader) (s : Slot) (value : String) :
    Except CommandFault CommandReader := do
  let r ← if s.repeats then pure r else r.give (.slot s)
  let line ← s.apply r.line value
  return { r with line }

/-- Takes in the value that is pending; a missing one is a fault. -/
def settle (r : CommandReader) : Except CommandFault CommandReader :=
  match r.pending with
  | none => .ok r
  | some ⟨s, none⟩ => .error (.invalidValue s.shown)
  | some ⟨s, some value⟩ => ({ r with pending := none }).takeValue s value

/-- An argument that takes a value, with the value attached to it if there is one. -/
def readSlot (r : CommandReader) (s : Slot) (attached : Option String) :
    Except CommandFault CommandReader := do
  let r ← r.settle
  match attached with
  | some value => r.takeValue s value
  | none => return { r with pending := some ⟨s, none⟩ }

def readSwitch (r : CommandReader) (s : Switch) : Except CommandFault CommandReader := do
  let r ← r.settle
  let line ← s.apply r.line
  let r ← r.give (.switch s)
  return { r with line }

/-- An argument by its long name, with what follows an equals sign. -/
def readLong (r : CommandReader) (name : String) (attached : Option String) :
    Except CommandFault CommandReader :=
  match Argument.ofLong? name, attached with
  | none, _ => .error (.unknownArgument ("--" ++ name))
  | some (.slot s), attached => r.readSlot s attached
  | some (.switch s), none => r.readSwitch s
  | some (.switch s), some _ => .error (.tooManyValues (Argument.switch s).shown)

/-- Arguments by their letters. What follows the letter of one that takes a value is its
value. -/
def readShorts (r : CommandReader) : List Char → Except CommandFault CommandReader
  | [] => .ok r
  | c :: rest =>
    match Argument.ofShort? c with
    | none => .error (.unknownArgument (String.ofList ['-', c]))
    | some (.switch s) =>
      match r.readSwitch s with
      | .error fault => .error fault
      | .ok r => readShorts r rest
    | some (.slot s) =>
      match rest with
      | [] => r.readSlot s none
      | '=' :: value => r.readSlot s (some (String.ofList value))
      | value => r.readSlot s (some (String.ofList value))

/-- An argument without a name. There is only one. -/
def readPlain (r : CommandReader) (value : String) : Except CommandFault CommandReader :=
  if r.hasDirectory then .error (.unknownArgument value)
  else do
    let r ← r.settle
    return { r with pending := some ⟨.directory, some value⟩, hasDirectory := true }

/-- A value for the argument that waits for one, else a directory. -/
def readValue (r : CommandReader) (value : String) : Except CommandFault CommandReader :=
  match r.pending with
  | some ⟨s, none⟩ => .ok { r with pending := some ⟨s, some value⟩ }
  | _ => r.readPlain value

/-- A long argument without its hyphens, cut at the first equals sign. -/
def cutAtEquals (s : List Char) : String × Option String :=
  let name := String.ofList (s.takeWhile (· != '='))
  match s.dropWhile (· != '=') with
  | [] => (name, none)
  | _ :: value => (name, some (String.ofList value))

def read (r : CommandReader) (argument : String) : Except CommandFault CommandReader :=
  if r.namesOver then r.readPlain argument
  else match argument.toList with
    | ['-', '-'] => .ok { r with namesOver := true }
    | '-' :: '-' :: rest =>
      let (name, attached) := cutAtEquals rest
      r.readLong name attached
    | '-' :: c :: rest => r.readShorts (c :: rest)
    | _ => r.readValue argument

end CommandReader

/-- Reads the arguments of a command line, the program's name left out. -/
def CommandLine.parse (arguments : List String) : Except CommandFault CommandLine := do
  let r ← arguments.foldlM CommandReader.read {}
  return (← r.settle).line

end LineCensus.Settings
