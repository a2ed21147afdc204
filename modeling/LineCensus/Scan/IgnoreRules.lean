import LineCensus.Glob.Match
import LineCensus.Text.Blank
import LineCensus.Text.Utf8

/-!
# Ignore rules

A rule file holds a rule on each line: a pattern of paths to ignore or, after an
exclamation mark, to keep. The last rule that fits a path decides. A pattern with a slash
in it fits paths from the directory of the file; one without fits names at any depth.
-/
namespace LineCensus.Scan

open LineCensus.Text

/-- What rules say about a path. -/
inductive Verdict
  | ignored
  | kept
deriving DecidableEq, Repr

structure IgnoreRule where
  pattern : Glob.Pattern
  verdict : Verdict
  directoriesOnly : Bool
deriving Repr

namespace IgnoreRule

/-- The rule without the blanks at its end, unless a backslash keeps the last one. -/
def trimEnd (line : List Char) : List Char :=
  match line.reverse with
  | ' ' :: '\\' :: _ => line
  | back => (back.dropWhile isBlank).reverse

/-- Takes off a slash at the end, with a backslash before it, and tells whether there
was one. -/
def cutSlash (line : List Char) : List Char × Bool :=
  match line.reverse with
  | '/' :: '\\' :: back => (back.reverse, true)
  | '/' :: back => (back.reverse, true)
  | _ => (line, false)

/-- A rule of one name may fit at any depth. -/
def atAnyDepth (line : List Char) : List Char :=
  if line.contains '/' || line == ['*', '*'] then line else '*' :: '*' :: '/' :: line

/-- A rule for everything in a directory leaves the directory itself alone. -/
def insideOnly (line : List Char) : List Char :=
  if ['*', '*', '/'].isPrefixOf line.reverse then line ++ ['/', '*'] else line

/-- The rule for what stands on a line behind the mark that tells its verdict. -/
def ofBody? (verdict : Verdict) (anchored : Bool) (line : List Char) : Option IgnoreRule :=
  let (body, directoriesOnly) := cutSlash line
  let text := insideOnly (if anchored then body else atAnyDepth body)
  match Glob.Pattern.compile (String.ofList text) true true with
  | .ok pattern => some ⟨pattern, verdict, directoriesOnly⟩
  | .error _ => none

/-- A slash at the head is not matched, but ties the rule to its directory. -/
def ofAnchored? (verdict : Verdict) : List Char → Option IgnoreRule
  | '/' :: line => ofBody? verdict true line
  | line => ofBody? verdict false line

/-- The rule on a line. There is none on an empty line, in a comment, or where the
pattern is none. -/
def ofLine? (line : List Char) : Option IgnoreRule :=
  if line.head? == some '#' then none
  else match trimEnd line with
    | [] => none
    | '\\' :: '!' :: rest => ofBody? .ignored false ('!' :: rest)
    | '\\' :: '#' :: rest => ofBody? .ignored false ('#' :: rest)
    | '!' :: rest => ofAnchored? .kept rest
    | line => ofAnchored? .ignored line

def fits (r : IgnoreRule) (path : String) (isDirectory : Bool) : Bool :=
  (isDirectory || !r.directoriesOnly) && r.pattern.isMatch path

end IgnoreRule

/-! ## Rule files -/

/-- Lines of bytes, each without its line feed and a carriage return before it. -/
def splitFeeds : List UInt8 → List (List UInt8)
  | [] => [[]]
  | b :: bytes =>
    match splitFeeds bytes with
    | [] => [[b]]
    | line :: lines =>
      if b == 0x0A then [] :: line :: lines
      else if b == 0x0D && line.isEmpty && bytes.head? == some 0x0A then [] :: lines
      else (b :: line) :: lines

/-- The lines of a rule file up to the first that is no text. A byte order mark before
the first line does not count. -/
def ruleLines (bytes : List UInt8) : List (List Char) :=
  let lines := ((splitFeeds bytes).map Utf8.decode?).takeWhile Option.isSome
  match lines.filterMap id with
  | [] => []
  | first :: rest => first.dropWhile (· == '\uFEFF') :: rest

/-- The rules of a file, in its order. -/
def ignoreRules (bytes : List UInt8) : List IgnoreRule :=
  (ruleLines bytes).filterMap IgnoreRule.ofLine?

/-- What the last rule says that fits a path, seen from the directory of the rules. -/
def verdict? (rules : List IgnoreRule) (path : String) (isDirectory : Bool) : Option Verdict :=
  (rules.reverse.find? (·.fits path isDirectory)).map (·.verdict)

end LineCensus.Scan
