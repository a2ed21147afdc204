import LineCensus.Glob.Match

/-!
# Filtering files

A file counts if an include pattern fits it, or there is none, and no exclude pattern
does. Some excludes hold for every scan.
-/
namespace LineCensus.Glob

/-- Where results are written unless another directory is named. -/
def defaultResultsDir : String := "ct-lines-result"

/-- Excludes of every scan. -/
def defaultExcludes : List String := ["**/node_modules/**", "**/.git/**", "ct-lines-result/**"]

/-- A text that is no pattern, and why. -/
structure Refusal where
  pattern : String
  fault : Fault
deriving DecidableEq, Repr

/-- The fault with the pattern it was found in. -/
def Refusal.detail (r : Refusal) : String :=
  "error parsing glob '" ++ r.pattern ++ "': " ++ r.fault.message

/-- Compiles patterns up to the first that is none. -/
def compileAll : List String → Except Refusal (List Pattern)
  | [] => .ok []
  | text :: texts =>
    match Pattern.compile text false false with
    | .error fault => .error ⟨text, fault⟩
    | .ok p =>
      match compileAll texts with
      | .error refusal => .error refusal
      | .ok ps => .ok (p :: ps)

structure Filter where
  /-- Without patterns every path is included. -/
  included? : Option (List Pattern)
  excluded : List Pattern
deriving Repr

namespace Filter

def compile (includes excludes : List String) : Except Refusal Filter := do
  let included? ← if includes.isEmpty then pure none else some <$> compileAll includes
  let excluded ← compileAll excludes
  return ⟨included?, excluded⟩

/-- A filter with the excludes of every scan before its own. -/
def withDefaults (includes excludes : List String) : Except Refusal Filter :=
  compile includes (defaultExcludes ++ excludes)

/-- Whether a file counts, by its path below the root. -/
def accepts (f : Filter) (path : String) : Bool :=
  (match f.included? with
    | none => true
    | some ps => ps.any (·.isMatch path)) && !f.excluded.any (·.isMatch path)

end Filter

end LineCensus.Glob
