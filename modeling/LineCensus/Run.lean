import LineCensus.Census
import LineCensus.Report.Folder
import LineCensus.Report.LanguageList
import LineCensus.Scan.Files
import LineCensus.Settings.Loader

/-!
# Runs

A run takes a command line and a disk. It either lists languages, or counts the files
below a directory, prints a report of them and, if asked to, writes a results folder.
What was said before a failure stays said.
-/
namespace LineCensus

open LineCensus.Count LineCensus.Report LineCensus.Settings

/-- What a run depends on besides its command line and the disk. -/
structure Environment where
  time : Timestamp
  tokens : TokenCounter
  /-- The directory of the user's own configuration. -/
  userDirectory : Option Path := none
  /-- Whether diagnostics go to a terminal that shows colours. -/
  terminal : Bool := false

/-- What a run leaves behind. -/
structure Outcome where
  disk : Disk
  stdout : String := ""
  stderr : String := ""
  failure? : Option Failure := none

namespace Outcome

def exitCode (o : Outcome) : Nat := if o.failure?.isSome then 2 else 0

/-- All that is said on the error stream, the failure included. -/
def fullStderr (o : Outcome) (colors : Bool) : String :=
  o.stderr ++ (o.failure?.map fun f => (Diagnostic.ofFailure f).render colors).getD ""

end Outcome

/-- The files of a disk, as settings are loaded from them. -/
def Disk.fileSource (d : Disk) (userDirectory : Option Path) : FileSource :=
  ⟨d.isFile, d.readText, userDirectory⟩

/-- The configuration and the languages of a run. -/
def loadFor (env : Environment) (line : CommandLine) (d : Disk) :
    Except Failure (Configuration × Registry) := do
  let files := d.fileSource env.userDirectory
  let loaded ← files.loadConfiguration line.directory line.config line.noConfig
  let registry ← files.loadRegistry loaded line.languageConf
  return (loaded.configuration, registry)

def renderAll (ds : List Diagnostic) (colors : Bool) : String :=
  String.join (ds.map (·.render colors))

/-- What is said when the results folder is written. -/
def writtenNotice (settings : RunSettings) : String :=
  if settings.quiet then "" else "Results written to " ++ settings.outputDir.text ++ "\n"

/-- A run that has come as far as reading files. -/
structure Plan where
  settings : RunSettings
  table : ClassifierTable
  root : Path
  /-- The files to count. -/
  paths : List Path
  colors : Bool

/-- The plan for counting below a directory, or the end of a run that has none. -/
def planBelow (colors : Bool) (settings : RunSettings) (registry : Registry) (d : Disk)
    (root : Path) : Except Outcome Plan :=
  let table := ClassifierTable.ofRegistry registry
  let said := renderAll (literalWarnings table) colors
  match Scan.files d settings root with
  | .error failure => .error { disk := d, stderr := said, failure? := some failure }
  | .ok [] => .error { disk := d, stderr := said, failure? := some (.noFiles root) }
  | .ok paths => .ok { settings, table, root, paths, colors }

/-- The plan of a run, or its end if it reads no file to count. -/
def plan (env : Environment) (line : CommandLine) (d : Disk) : Except Outcome Plan :=
  match loadFor env line d with
  | .error failure => .error { disk := d, failure? := some failure }
  | .ok (configuration, registry) =>
    if line.listLanguages then .error { disk := d, stdout := languageList registry }
    else match d.canonicalize line.directory with
      | .error cause => .error { disk := d, failure? := some (.io cause) }
      | .ok root =>
        planBelow (line.color.enabled env.terminal) (.resolve line configuration) registry d root

namespace Plan

def census (p : Plan) (env : Environment) (d : Disk) : Census :=
  { root := p.root
    table := p.table
    tokens := env.tokens
    read := d.readBytes
    incompleteLine := p.settings.includeIncompleteLine
    unsupported := p.settings.includeUnsupported }

/-- Writes the results folder of a run that has printed its report. -/
def writeResults (p : Plan) (env : Environment) (project : Project) (o : Outcome) : Outcome :=
  let s := p.settings
  let folder : ResultsFolder :=
    ⟨project, s.numbers, ⟨s.textResults, s.markdownResults⟩, env.time⟩
  let written := folder.write o.disk s.outputDir
  match written.result with
  | .error cause => { o with disk := written.disk, failure? := some (.io cause) }
  | .ok _ => { o with disk := written.disk, stderr := o.stderr ++ writtenNotice s }

/-- Counts the files and reports on them. -/
def carryOut (p : Plan) (env : Environment) (d : Disk) : Outcome :=
  let counted := (p.census env d).count p.paths
  let project := Project.ofRecords p.root.text counted.records
  let o : Outcome :=
    { disk := d
      stdout := p.settings.format.render p.settings.numbers env.time project
      stderr := renderAll (literalWarnings p.table ++ counted.warnings) p.colors }
  if p.settings.generateResults then p.writeResults env project o else o

end Plan

/-- Runs a command line. -/
def run (env : Environment) (line : CommandLine) (d : Disk) : Outcome :=
  match plan env line d with
  | .error outcome => outcome
  | .ok p => p.carryOut env d

end LineCensus
