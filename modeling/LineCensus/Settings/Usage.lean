import LineCensus.Settings.CommandLine

/-!
# Usage

What is printed when a command line is not run.
-/
namespace LineCensus.Settings

def programName : String := "ct-lines"

def programVersion : String := "0.1.0"

namespace Argument

/-- How the value of an argument is called. -/
def valueName? : Argument → Option String
  | .slot .includes => some "INCLUDE"
  | .slot .excludes => some "EXCLUDE"
  | .slot .languageConf => some "PATH"
  | .slot .format => some "FORMAT"
  | .slot .outputDir => some "PATH"
  | .slot .config => some "CONFIG"
  | .slot .color => some "COLOR"
  | .slot .directory => none
  | .switch _ => none

def description : Argument → String
  | .slot .directory => "Directory to count"
  | .slot .includes => "Include patterns (can be specified multiple times)"
  | .slot .excludes => "Exclude patterns (can be specified multiple times)"
  | .slot .languageConf => "Language override file (JSON, or TOML by extension)"
  | .slot .format => "Output format [possible values: text, json, csv, markdown]"
  | .slot .outputDir => "Results folder location"
  | .slot .config => "Path to configuration file"
  | .slot .color => "Control color output [possible values: auto, always, never]"
  | .switch .noGitignore => "Do not apply .gitignore rules"
  | .switch .generateResults => "Write the results folder"
  | .switch .noTextResults => "Skip results.txt in the results folder"
  | .switch .noMarkdownResults => "Skip results.md and details.md in the results folder"
  | .switch .includeUnsupported => "List files with no matching language"
  | .switch .includeIncompleteLine =>
    "Count the last line even when it has no line terminator"
  | .switch .noCommas => "Print numbers without thousands separators"
  | .switch .noConfig => "Skip loading configuration file"
  | .switch .quiet => "Suppress progress and informational output"
  | .switch .listLanguages => "Print the effective language definitions and exit"
  | .switch .help => "Print help"
  | .switch .version => "Print version"

/-- The lines of help for an argument with a name. -/
def helpLines (row : Argument × String × Option Char) : List String :=
  let letter := match row.2.2 with
    | some c => String.ofList ['-', c] ++ ", "
    | none => "    "
  let value := match row.1.valueName? with
    | some name => " <" ++ name ++ ">"
    | none => ""
  ["  " ++ letter ++ "--" ++ row.2.1 ++ value, "          " ++ row.1.description]

end Argument

def helpText : String :=
  "\n".intercalate
    (["Count code, comment and blank lines per language.", "",
      "Exit codes:", "  0 - Success", "  2 - Configuration or runtime error", "",
      "Usage: " ++ programName ++ " [OPTIONS] [DIRECTORY]", "", "Options:"] ++
      Argument.table.flatMap Argument.helpLines) ++ "\n"

/-- What is said of a command line that is not run. -/
def CommandFault.message : CommandFault → String
  | unknownArgument argument => "unexpected argument '" ++ argument ++ "' found"
  | invalidValue argument => "a valid value is required for '" ++ argument ++ "'"
  | unreadableValue argument message => "invalid value for '" ++ argument ++ "': " ++ message
  | conflict argument =>
    "the argument '" ++ argument ++ "' cannot be used multiple times"
  | tooManyValues argument => "no value is expected for '" ++ argument ++ "'"
  | help => helpText
  | version => programName ++ " " ++ programVersion ++ "\n"

end LineCensus.Settings
