import LineCensus.Disk

/-!
# The output directory

A scan leaves out the directory that results are written to, if that lies below the
scanned one.
-/
namespace LineCensus.Scan

/-- A path as seen from the working directory of a disk. -/
def fromCurrent (d : Disk) (p : Path) : Path := (Disk.absolute d.current).join p

/-- The path of an output directory without links where it is there already, else from
the working directory. -/
def outputPath (d : Disk) (outputDir : Path) : Path :=
  if d.exists? outputDir then
    match d.canonicalize outputDir with
    | .ok p => p
    | .error _ => fromCurrent d outputDir
  else fromCurrent d outputDir

/-- The pattern for all that lies in the output directory. -/
def outputDirExclude? (d : Disk) (root outputDir : Path) : Option String :=
  match d.canonicalize root with
  | .error _ => none
  | .ok root =>
    match (outputPath d outputDir).below? root with
    | none => none
    | some below =>
      let relative := Path.slashed below
      if relative == "." then none else some (relative ++ "/**")

end LineCensus.Scan
