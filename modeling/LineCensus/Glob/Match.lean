import LineCensus.Glob.Pattern
import LineCensus.Text.Utf8

/-!
# Matching paths

A pattern is matched against the bytes of a path. While its tokens are followed one by
one, a row of marks tells at which places of the path the tokens so far may have come
to an end: one mark before every byte and one after the last. A path that ends in two dots
has no file name, so patterns that ask for the file name alone do not fit it.
-/
namespace LineCensus.Glob

/-- The places of a path, marked or not. -/
abbrev Row := List Bool

def slash : UInt8 := 0x2F

/-- Every mark moves over one byte of the set. -/
def overOne (p : UInt8 → Bool) (bytes : List UInt8) (row : Row) : Row :=
  false :: List.zipWith (fun b mark => mark && p b) bytes row

/-- Marks every place that bytes of the set lead to from a mark; `reached` tells whether
they lead to the place before the first byte. -/
def overManyFrom (p : UInt8 → Bool) (reached : Bool) : List UInt8 → Row → Row
  | b :: bytes, mark :: row =>
    let reached := (reached && p b) || mark
    reached :: overManyFrom p reached bytes row
  | _, row => row

/-- Every mark stays, and moves over any number of bytes of the set. -/
def overMany (p : UInt8 → Bool) (bytes : List UInt8) : Row → Row
  | [] => []
  | mark :: row => mark :: overManyFrom p mark bytes row

def both (a b : Row) : Row := List.zipWith (· || ·) a b

def overSlash (bytes : List UInt8) (row : Row) : Row := overOne (· == slash) bytes row

def overAnything (bytes : List UInt8) (row : Row) : Row := overMany (fun _ => true) bytes row

/-- Moves over the bytes of a text, one after the other. -/
def overBytes (text bytes : List UInt8) (row : Row) : Row :=
  text.foldl (fun row t => overOne (· == t) bytes row) row

def byteOfClass (k : CharClass) (b : UInt8) : Bool :=
  let inside := k.ranges.any fun (low, high) =>
    let lows := String.utf8EncodeChar low
    let highs := String.utf8EncodeChar high
    if low = high then lows.contains b
    else
      -- The bytes between the last byte of the lower end and the first of the upper.
      (lows.dropLast.contains b || highs.tail.contains b) ||
        match lows.getLast?, highs.head? with
        | some l, some h => l ≤ b && b ≤ h
        | _, _ => false
  inside != k.negated

mutual

/-- Whether the tokens ask for nothing at all. -/
def asksNothing : List Token → Bool
  | [] => true
  | t :: ts => tokenAsksNothing t && asksNothing ts

def tokenAsksNothing : Token → Bool
  | .alternatives branches => branchesAskNothing branches
  | _ => false

def branchesAskNothing : List (List Token) → Bool
  | [] => true
  | b :: bs => asksNothing b && branchesAskNothing bs

end

mutual

/-- Follows one token. -/
def followToken (slashSeparates : Bool) (bytes : List UInt8) (row : Row) : Token → Row
  | .literal c => overBytes (String.utf8EncodeChar c) bytes row
  | .any => overOne (fun b => !(slashSeparates && b == slash)) bytes row
  | .star => overMany (fun b => !(slashSeparates && b == slash)) bytes row
  | .oneOf k => overOne (byteOfClass k) bytes row
  | .anyDirsThen => both row (overSlash bytes (overAnything bytes row))
  | .everythingBelow => overAnything bytes (overSlash bytes row)
  | .anyDirsBetween =>
    let below := overSlash bytes row
    both below (overSlash bytes (overAnything bytes below))
  | .alternatives branches =>
    if branchesAskNothing branches then row
    else followBranches slashSeparates bytes row branches

/-- Follows tokens one after the other. -/
def followTokens (slashSeparates : Bool) (bytes : List UInt8) (row : Row) : List Token → Row
  | [] => row
  | t :: ts => followTokens slashSeparates bytes (followToken slashSeparates bytes row t) ts

/-- Follows the branches side by side; one that asks for nothing is left out. -/
def followBranches (slashSeparates : Bool) (bytes : List UInt8) (row : Row) :
    List (List Token) → Row
  | [] => row.map fun _ => false
  | b :: bs =>
    let rest := followBranches slashSeparates bytes row bs
    if asksNothing b then rest else both (followTokens slashSeparates bytes row b) rest

end

/-- Only the place before the first byte is marked. -/
def startRow (bytes : List UInt8) : Row := true :: bytes.map fun _ => false

/-- The pattern fits the path from end to end. Two stars alone fit every path. -/
def Pattern.matchesBytes (p : Pattern) (bytes : List UInt8) : Bool :=
  match p.tokens with
  | [.anyDirsThen] => true
  | tokens => (followTokens p.slashSeparates bytes (startRow bytes) tokens).getLastD false

/-! ## File names -/

def Token.isLiteral : Token → Bool
  | .literal _ => true
  | _ => false

/-- A character of a file name. -/
def Token.isNamePart : Token → Bool
  | .literal c => c != '/'
  | _ => false

/-- A character of a suffix behind its dot. -/
def Token.isSuffixPart : Token → Bool
  | .literal c => c != '/' && c != '.'
  | _ => false

def Token.isDot : Token → Bool
  | .literal c => c == '.'
  | _ => false

/-- The tokens without a leading one for any directory. -/
def withoutDirs : List Token → List Token
  | .anyDirsThen :: ts => ts
  | ts => ts

namespace Pattern

/-- A file name in any directory. -/
def isFileName (p : Pattern) : Bool :=
  match p.tokens with
  | .anyDirsThen :: ts => !ts.isEmpty && ts.all Token.isNamePart
  | _ => false

/-- A star and a suffix. -/
def isSuffix (p : Pattern) : Bool :=
  match withoutDirs p.tokens with
  | .star :: dot :: ts =>
    dot.isDot && ts.all Token.isSuffixPart &&
      !(p.slashSeparates && (withoutDirs p.tokens).length == p.tokens.length)
  | _ => false

/-- A text, in any directory or behind a star that reaches over slashes. -/
def isEnding (p : Pattern) : Bool :=
  let (star, ts) := match withoutDirs p.tokens with
    | .star :: ts => (true, ts)
    | ts => (false, ts)
  !(star && p.slashSeparates) && !ts.isEmpty && ts.all Token.isLiteral

/-- A pattern whose last characters are a suffix. -/
def endsWithSuffix (p : Pattern) : Bool :=
  match p.tokens.reverse.dropWhile Token.isSuffixPart with
  | dot :: _ => dot.isDot
  | [] => false

/-- Whether a path must have a file name to fit. An ending is asked for in the whole path,
unless it is a file name or a suffix. -/
def asksFileName (p : Pattern) : Bool :=
  p.isFileName || p.isSuffix || (p.endsWithSuffix && !p.isEnding)

/-- The path ends in two dots, after a slash or alone. -/
def lacksFileName (path : String) : Bool :=
  path.toList.reverse.takeWhile (· != '/') == ['.', '.']

def isMatch (p : Pattern) (path : String) : Bool :=
  !(p.asksFileName && lacksFileName path) && p.matchesBytes (Text.Utf8.encode path.toList)

end Pattern

end LineCensus.Glob
