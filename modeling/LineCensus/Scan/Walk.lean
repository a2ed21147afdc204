import LineCensus.Disk
import LineCensus.Scan.IgnoreRules

/-!
# Walking a directory

A walk lists the files below a directory. Links and devices are passed over. Hidden names
are passed over too, unless a rule keeps them, and what a rule ignores is left out with all
that is below it. Rules stand in `.gitignore` and `.ignore` files, each for its own
directory and those below; of two files with a word on a path the nearer one has it, but
any `.ignore` outranks every `.gitignore`.
-/
namespace LineCensus.Scan

/-- The rules of a directory, and the names that lead on from there. -/
structure Level where
  ignoreFile : List IgnoreRule
  gitignoreFile : List IgnoreRule
  below : List String

namespace Level

/-- The rules in a file of a directory; there are none if it cannot be read. -/
def rulesIn (d : Disk) (directory : List String) (name : String) : List IgnoreRule :=
  match d.readBytes (Disk.absolute (directory ++ [name])) with
  | .ok bytes => ignoreRules bytes
  | .error _ => []

def ofDirectory (d : Disk) (directory : List String) : Level :=
  ⟨rulesIn d directory ".ignore", rulesIn d directory ".gitignore", []⟩

/-- The level as seen one name further on. -/
def enter (l : Level) (name : String) : Level := { l with below := l.below ++ [name] }

def path (l : Level) (name : String) : String := joinSlash (l.below ++ [name])

end Level

/-- What the levels, the nearest first, say about a name in the directory in hand. -/
def verdictOf (levels : List Level) (name : String) (isDirectory : Bool) : Option Verdict :=
  let ask (rules : Level → List IgnoreRule) :=
    levels.findSome? fun l => verdict? (rules l) (l.path name) isDirectory
  (ask Level.ignoreFile).or (ask Level.gitignoreFile)

/-- Whether a walk looks for rules. -/
inductive WalkMode
  /-- Rule files are read. -/
  | withRules
  /-- Rule files count for nothing. -/
  | withoutRules
deriving DecidableEq, Repr

namespace WalkMode

def ofGitignore (gitignore : Bool) : WalkMode := if gitignore then withRules else withoutRules

/-- The levels of a directory in front of those above it. -/
def levels (mode : WalkMode) (d : Disk) (directory : List String) (above : List Level) :
    List Level :=
  match mode with
  | withRules => Level.ofDirectory d directory :: above
  | withoutRules => []

end WalkMode

/-- Hidden names start with a dot. The system has bytes for a name, and bytes that are no text
are not hidden, whatever they start with. -/
def isHidden (name : List UInt8) : Bool := (Text.Utf8.decode? name).any (·.head? == some '.')

/-- A name that no rule speaks of is passed over if it is hidden. -/
def visits (levels : List Level) (name : String) (isDirectory : Bool) : Bool :=
  match verdictOf levels name isDirectory with
  | some .ignored => false
  | some .kept => true
  | none => !isHidden (Text.Utf8.encode name.toList)

mutual

/-- The files of what stands under the last of `names` below `root`. -/
def walkNode (mode : WalkMode) (d : Disk) (root names : List String) (above : List Level) :
    Node → List (List String)
  | .file _ => [names]
  | .locked _ => [names]
  | .link _ => []
  | .sink => []
  | .directory children =>
    walkChildren mode d root names (mode.levels d (root ++ names) above) children

/-- The files of children that are visited. -/
def walkChildren (mode : WalkMode) (d : Disk) (root names : List String)
    (levels : List Level) : List (String × Node) → List (List String)
  | [] => []
  | c :: cs =>
    walkChild mode d root names levels c ++ walkChildren mode d root names levels cs

def walkChild (mode : WalkMode) (d : Disk) (root names : List String)
    (levels : List Level) : String × Node → List (List String)
  | (name, n) =>
    if visits levels name n.isDirectory then
      walkNode mode d root (names ++ [name]) (levels.map (·.enter name)) n
    else []

end

theorem walkChildren_eq_flatMap (mode : WalkMode) (d : Disk) (root names : List String)
    (levels : List Level) (cs : List (String × Node)) :
    walkChildren mode d root names levels cs =
      cs.flatMap (walkChild mode d root names levels) := by
  induction cs with
  | nil => simp [walkChildren]
  | cons c cs ih => simp [walkChildren, ih]

/-- The files below a directory, each by the names that lead to it from there, in no
particular order. -/
def walk (mode : WalkMode) (d : Disk) (root : List String) : List (List String) :=
  match d.root.get? root with
  | some n => walkNode mode d root [] [] n
  | none => []

end LineCensus.Scan
