import LineCensus.OrderedMap
import LineCensus.Path
import LineCensus.SortedMap
import LineCensus.Tally

/-!
# Statistics

The counts of single files are gathered into totals: of the whole project, of every
language and of every directory. A file counts in its own directory and in all those
that hold it. A directory whose own files differ in lines from the whole of it has a
second entry, for its own files alone.

The sums are natural numbers. A program adds them up in machine words, which hold the same
numbers if a word has room for the sums over all files, and only then
(`Project.neverOverflows_iff`).
-/
namespace LineCensus.Report

/-- The language of files that belong to none. -/
def unsupportedLanguage : String := "(Unsupported)"

/-- What ends the name of an entry for a directory's own files. -/
def ownFilesMark : String := " (Files)"

/-- The counts of a file. -/
structure FileRecord where
  /-- Below the root, with slashes. -/
  path : String
  language : String
  tally : Tally
  tokens : Nat
deriving DecidableEq, Repr, Inhabited

def FileRecord.unsupported (path : String) : FileRecord := ⟨path, unsupportedLanguage, 0, 0⟩

/-- The sums over some files. -/
structure Group where
  name : String
  files : Nat := 0
  tally : Tally := 0
  tokens : Nat := 0
deriving DecidableEq, Repr, Inhabited

namespace Group

def total (g : Group) : Nat := g.tally.total

def add (g : Group) (f : FileRecord) : Group :=
  { g with files := g.files + 1, tally := g.tally + f.tally, tokens := g.tokens + f.tokens }

end Group

/-- The directory that a file lies in. -/
def directoryOf (path : String) : String := String.ofList (parentDir path.toList)

/-- The directories that a file counts in. -/
def directoriesOf (path : String) : List String :=
  (selfAndAncestors (parentDir path.toList)).map String.ofList

/-- The sums of a project. -/
structure Project where
  /-- The directory as it was named. -/
  root : String
  /-- In the order of their paths. -/
  files : List FileRecord
  total : Group
  /-- By name, in the order of their first files. -/
  languages : OrderedMap Group
  directories : SortedMap Group

/-- The sums over the files read so far, and those over each directory's own files. -/
structure Gathering where
  total : Group := { name := "Total" }
  languages : OrderedMap Group := .empty
  directories : SortedMap Group := .empty
  own : SortedMap Group := .empty

namespace Gathering

/-- Adds a file to the entry of a key, under the given name if the entry is new. -/
def addTo (m : SortedMap Group) (key name : String) (f : FileRecord) : SortedMap Group :=
  m.insert key (((m.get? key).getD { name }).add f)

def addLanguage (m : OrderedMap Group) (f : FileRecord) : OrderedMap Group :=
  m.insert f.language (((m.get? f.language).getD { name := f.language }).add f)

def addFile (g : Gathering) (f : FileRecord) : Gathering :=
  let dir := directoryOf f.path
  { total := g.total.add f
    languages := addLanguage g.languages f
    directories := (directoriesOf f.path).foldl (fun m d => addTo m d d f) g.directories
    own := addTo g.own dir (dir ++ ownFilesMark) f }

/-- Adds the entry of a directory's own files, if their lines are not all of its lines. -/
def addOwn (directories : SortedMap Group) (e : String × Group) : SortedMap Group :=
  let whole := ((directories.get? e.1).map Group.total).getD 0
  if e.2.total = whole then directories else directories.insert e.2.name e.2

end Gathering

/-- Files from the most code to the least; files with equal code keep their order. -/
def byCode {α : Type} (code : α → Nat) (xs : List α) : List α :=
  xs.mergeSort fun a b => decide (code b ≤ code a)

namespace Project

def ofRecords (root : String) (records : List FileRecord) : Project :=
  let files := records.mergeSort fun a b => decide (a.path ≤ b.path)
  let g := files.foldl Gathering.addFile {}
  { root, files
    total := g.total
    languages := g.languages
    directories := g.own.entries.foldl Gathering.addOwn g.directories }

def languagesByCode (p : Project) : List Group := byCode (·.tally.code) p.languages.values

def topDirectories (p : Project) (n : Nat) : List Group :=
  (byCode (·.tally.code) p.directories.values).take n

def topFiles (p : Project) (n : Nat) : List FileRecord :=
  (byCode (·.tally.code) p.files).take n

/-- The files of every language, the language with the most code first. -/
def filesByLanguage (p : Project) : List (String × List FileRecord) :=
  p.languagesByCode.map fun g => (g.name, p.files.filter (·.language == g.name))

end Project

end LineCensus.Report
