import LineCensus.Glob.Filter
import LineCensus.Settings.CommandLine
import LineCensus.Settings.Configuration

/-!
# The settings of a run

The command line and the configuration, put together. The command line can choose other
includes and another format; excludes and switches of the two add up.
-/
namespace LineCensus.Settings

structure RunSettings where
  includes : List String
  excludes : List String
  gitignore : Bool
  format : Report.Format
  numbers : Report.NumberFormat
  includeIncompleteLine : Bool
  includeUnsupported : Bool
  generateResults : Bool
  textResults : Bool
  markdownResults : Bool
  outputDir : Path
  quiet : Bool
deriving DecidableEq, Repr

def RunSettings.resolve (line : CommandLine) (c : Configuration) : RunSettings where
  includes := if line.includes.isEmpty then c.scanner.includes else line.includes
  excludes := c.scanner.excludes ++ line.excludes
  gitignore := c.scanner.gitignore && !line.noGitignore
  format := line.format.getD c.output.format
  numbers := ⟨c.output.commas && !line.noCommas⟩
  includeIncompleteLine := c.output.incompleteLine || line.includeIncompleteLine
  includeUnsupported := c.output.unsupported || line.includeUnsupported
  generateResults := line.generateResults
  textResults := !line.noTextResults
  markdownResults := !line.noMarkdownResults
  outputDir := line.outputDir.getD (line.directory.join ⟨Glob.defaultResultsDir⟩)
  quiet := line.quiet

end LineCensus.Settings
