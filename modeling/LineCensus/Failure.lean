import LineCensus.Document.Value
import LineCensus.Glob.Filter
import LineCensus.IoFailure
import LineCensus.Language.Fault
import LineCensus.Path

/-!
# Failures

Everything that ends a run, by its cause. Each failure has a message, may have a detail
that quotes what lies behind it, and may suggest what to do.
-/
namespace LineCensus

inductive Failure
  | config (message : String)
  /-- A language entry of a source is refused. -/
  | language (source : String) (refusal : LanguageRefusal)
  /-- A document cannot be read. -/
  | parse (path : Path) (fault : Document.Fault)
  /-- A file that has to be read cannot be. -/
  | fileRead (path : Path) (cause : IoFailure)
  | pattern (refusal : Glob.Refusal)
  | noFiles (root : Path)
  | tokenizer (message : String)
  | io (cause : IoFailure)
  /-- A report cannot be written down. -/
  | report (message : String)
deriving DecidableEq, Repr

namespace Failure

/-- The heading under which a failure is shown. -/
def kind : Failure → String
  | config _ => "Config"
  | parse _ _ => "Config"
  | language _ _ => "Language"
  | fileRead _ _ => "IO"
  | io _ => "IO"
  | pattern _ => "Pattern"
  | noFiles _ => "Scan"
  | tokenizer _ => "Tokens"
  | report _ => "Output"

/-- What could not be parsed, without the reason. -/
def parseHead (path : Path) : String := "Failed to parse " ++ path.text

def message : Failure → String
  | config text => "Configuration error: " ++ text
  | language source refusal =>
    "Invalid language definition '" ++ refusal.id ++ "' in " ++ source ++ ": " ++
      refusal.fault.message
  | parse path fault => parseHead path ++ ": " ++ fault.message
  | fileRead path _ => "Failed to read file: " ++ path.text
  | pattern refusal => "Invalid glob pattern: " ++ refusal.pattern
  | noFiles root => "No files found to count in " ++ root.text
  | tokenizer text => "Failed to load tokenizer: " ++ text
  | io cause => "IO error: " ++ cause.message
  | report text => "JSON serialization error: " ++ text

/-- What lies behind a failure, in the words of its cause. -/
def source? : Failure → Option String
  | fileRead _ cause => some cause.message
  | pattern refusal => some refusal.detail
  | io cause => some cause.message
  | report text => some text
  | _ => none

/-- A detail that the message does not hold already. -/
def detail? : Failure → Option String
  | fileRead _ cause => some cause.message
  | pattern refusal => some refusal.detail
  | _ => none

def suggestion? : Failure → Option String
  | language _ _ =>
    some ("each entry needs \"extensions\" or \"filenames\"; " ++
      "delimiter pairs are [start, end] string arrays")
  | pattern _ => some "check the glob syntax of --include/--exclude"
  | noFiles _ => some "check --include/--exclude patterns and .gitignore rules"
  | _ => none

end Failure

end LineCensus
