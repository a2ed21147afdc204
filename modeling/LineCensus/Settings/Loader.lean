import LineCensus.Settings.Configuration
import LineCensus.Settings.OverrideFile

/-!
# Loading settings

A configuration comes from the file that is named, else from the scanned directory, else
from the user's own directory. Languages come from the catalog, with those of the
configuration and then those of an override file put on top.
-/
namespace LineCensus.Settings

/-- Where files are read from. -/
structure FileSource where
  isFile : Path → Bool
  readText : Path → Except IoFailure String
  /-- The directory of the user's own configuration. -/
  userDirectory : Option Path := none

def localConfigName : Path := ⟨".ct-lines.toml"⟩

def userConfigName : Path := ⟨"config.toml"⟩

/-- A configuration and the file that it comes from; there is none for the defaults. -/
structure Loaded where
  configuration : Configuration := {}
  source : Option Path := none

/-- What messages call the configuration. -/
def Loaded.sourceName (l : Loaded) : String := (l.source.getD localConfigName).text

namespace FileSource

def read (files : FileSource) (path : Path) : Except Failure String :=
  match files.readText path with
  | .ok content => .ok content
  | .error cause => .error (.fileRead path cause)

def loadFrom (files : FileSource) (path : Path) : Except Failure Loaded := do
  let content ← files.read path
  match Configuration.parse content with
  | .ok configuration => return ⟨configuration, some path⟩
  | .error fault => .error (.parse path fault)

/-- The file that a run over a directory takes its configuration from. -/
def discover? (files : FileSource) (target : Path) : Option Path :=
  let localFile := target.join localConfigName
  let userFile := files.userDirectory.map (·.join userConfigName)
  if files.isFile localFile then some localFile else userFile.filter files.isFile

/-- The configuration of a run: none at all, that of the named file, or a discovered one. -/
def loadConfiguration (files : FileSource) (target : Path) (named : Option Path)
    (skip : Bool) : Except Failure Loaded :=
  if skip then .ok {}
  else match named.or (files.discover? target) with
    | some path => files.loadFrom path
    | none => .ok {}

end FileSource

/-- Puts overrides from a source on top of a registry. -/
def loadOverrides (r : Registry) (source : String) (o : Overrides) : Except Failure Registry :=
  match r.load o with
  | .ok r => .ok r
  | .error refusal => .error (.language source refusal)

/-- The languages of a run. -/
def FileSource.loadRegistry (files : FileSource) (loaded : Loaded)
    (overrideFile : Option Path) : Except Failure Registry := do
  let registry ← loadOverrides .builtin loaded.sourceName loaded.configuration.languages
  match overrideFile with
  | none => return registry
  | some path =>
    let overrides ← readOverrides path (← files.read path)
    loadOverrides registry path.text overrides

end LineCensus.Settings
