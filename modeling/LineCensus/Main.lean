import LineCensus.Run
import LineCensus.Settings.Usage
import Std.Time.DateTime.Timestamp

/-!
# The program

The command line program takes a snapshot of the part of the disk that a run looks at,
runs on the snapshot, prints what the run says and writes the files that it changes.
-/
namespace LineCensus.Program

open LineCensus.Settings

def ioFailure : IO.Error → IoFailure
  | .noFileOrDirectory .. => .notFound
  | .permissionDenied .. => .permissionDenied
  | .alreadyExists .. => .alreadyExists
  | e => .other (toString e)

def fileNode (path : String) : IO Node := do
  try
    return .file (← IO.FS.readBinFile path).toList
  catch e =>
    return .locked (ioFailure e)

/-- The names of the files whose contents decide what a scan visits. -/
def ruleFileNames : List String := [".gitignore", ".ignore"]

/-- A directory with all that is below it. Only rule files have their contents. -/
partial def skeleton (path : String) : IO Node := do
  let mut children := []
  for entry in ← (← IO.FS.realPath path).readDir do
    let below := entry.path.toString
    let node ← try
      match (← entry.path.symlinkMetadata).type with
      | .dir => skeleton below
      | .symlink => pure (.link (← IO.FS.realPath below).toString)
      | .file => if ruleFileNames.contains entry.fileName then fileNode below else pure (.file [])
      | .other => pure (.link "")
      catch _ => pure (.link "")
    children := (entry.fileName, node) :: children
  return .directory children.reverse

/-- A node with all that a run may look at of it before it counts. -/
def nodeAt (path : String) : IO Node := do
  try
    skeleton path
  catch _ => fileNode path

/-- Puts a node where a path without links leads to, and makes the directories on the
way. A directory that is there already stays. -/
def addNode (d : Disk) (p : Path) (node : Node) : Disk :=
  let d := ((p.parentPath?.map d.makeDirectories).bind (·.toOption)).getD d
  match d.resolve p with
  | .error _ => (d.create p node).toOption.getD d
  | .ok names => if node.isDirectory then d else d.put names node

/-- Puts what a path leads to on a disk, and a link where the path itself stands. -/
def plant (d : Disk) (path : Path) : IO Disk := do
  try
    let target : Path := ⟨(← IO.FS.realPath path.text).toString⟩
    let d := addNode d target (← nodeAt target.text)
    let place := Scan.fromCurrent d path
    return if d.exists? place then d else addNode d place (.link target.text)
  catch _ => return d

/-- The paths that a run looks at, the directory before the files in it, but for the files
that it counts. -/
def pathsOf (env : Environment) (line : CommandLine) : List Path :=
  [line.directory, line.directory.join localConfigName] ++ line.config.toList ++
    line.languageConf.toList ++ (env.userDirectory.map (·.join userConfigName)).toList ++
    line.outputDir.toList

/-- The disk as far as a run looks at it before it counts. -/
def snapshot (env : Environment) (line : CommandLine) : IO Disk := do
  let current : Path := ⟨(← IO.currentDir).toString⟩
  let names := current.segments.filter (· != "")
  let d ← (pathsOf env line).foldlM plant { current := names }
  return (d.makeDirectories current).toOption.getD d

/-- Reads the files that a run counts. -/
def fill (d : Disk) (paths : List Path) : IO Disk :=
  paths.foldlM (fun d p => do
    match d.resolve p with
    | .ok names => return d.put names (← fileNode p.text)
    | .error _ => return d) d

/-- What a run needs to know of the system. The vocabulary `cl100k_base` is no part of the
project. The vocabulary of characters stands in for it, with one token for each character, so
that the numbers of tokens differ from those of `cl100k_base`. -/
def environment : IO Environment := do
  let now ← Std.Time.Timestamp.now
  let home := (← IO.getEnv "HOME").map fun h => h ++ "/.config"
  let userConfig := ((← IO.getEnv "XDG_CONFIG_HOME").filter (·.startsWith "/")).or home
  let terminal ← (← IO.getStderr).isTty
  return {
    time := .ofSeconds now.toSecondsSinceUnixEpoch.val.toNat
    tokens := countTokens characterTokens
    userDirectory := userConfig.map fun dir => Path.join ⟨dir⟩ ⟨programName⟩
    terminal := terminal && (← IO.getEnv "NO_COLOR").isNone }

/-- Writes the files that a run has changed. -/
def writeChanges (before after : Disk) : IO Unit :=
  (after.changedSince before []).forM fun (names, bytes) => do
    IO.FS.createDirAll (Disk.absolute names.dropLast).text
    IO.FS.writeBinFile (Disk.absolute names).text ⟨bytes.toArray⟩

def runOnDisk (line : CommandLine) : IO UInt32 := do
  let env ← environment
  let d ← snapshot env line
  let d ← match plan env line d with
    | .ok p => fill d p.paths
    | .error _ => pure d
  let outcome := run env line d
  IO.print outcome.stdout
  writeChanges d outcome.disk
  IO.eprint (outcome.fullStderr (line.color.enabled env.terminal))
  return outcome.exitCode.toUInt32

end LineCensus.Program

def main (args : List String) : IO UInt32 := do
  match LineCensus.Settings.CommandLine.parse args with
  | .ok line => LineCensus.Program.runOnDisk line
  | .error fault =>
    if fault.exitCode == 0 then IO.print fault.message
    else IO.eprintln ("error: " ++ fault.message)
    return fault.exitCode.toUInt32
