import LineCensus.Failure
import LineCensus.Glob.Filter
import LineCensus.Scan.OutputDir
import LineCensus.Scan.Walk
import LineCensus.Settings.RunSettings

/-!
# The files of a scan

A scan walks a directory and keeps the files that the filter accepts, in the order of
their paths.
-/
namespace LineCensus.Scan

open LineCensus.Settings

/-- The filter of a scan: that of the settings, with the output directory left out. -/
def filterOf (d : Disk) (settings : RunSettings) (root : Path) :
    Except Glob.Refusal Glob.Filter :=
  Glob.Filter.withDefaults settings.includes
    (settings.excludes ++ (outputDirExclude? d root settings.outputDir).toList)

/-- The files below a directory that the filter accepts. -/
def accepted (d : Disk) (mode : WalkMode) (filter : Glob.Filter) (root : Path) :
    Except IoFailure (List Path) :=
  match d.resolve root with
  | .error _ => .error (.noRoot root.text)
  | .ok names =>
    if (d.root.get? names).any Node.isDirectory then
      let paths := (walk mode d names).map fun below => root.join ⟨joinSlash below⟩
      .ok ((paths.filter fun p => filter.accepts (p.relativeTo root)).mergeSort Path.le)
    else .error (.noRoot root.text)

/-- The files that a run with some settings counts below a directory. -/
def files (d : Disk) (settings : RunSettings) (root : Path) : Except Failure (List Path) :=
  match filterOf d settings root with
  | .error refusal => .error (.pattern refusal)
  | .ok filter =>
    match accepted d (.ofGitignore settings.gitignore) filter root with
    | .error cause => .error (.io cause)
    | .ok paths => .ok paths

end LineCensus.Scan
