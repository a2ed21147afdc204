/-!
# Language definitions

A language is told by the names of its files and described by the tokens that open
and close its comments and strings. A definition is plain data: it may hold tokens
that no scan can use, which is for the registry to refuse.
-/
namespace LineCensus

/-- An opening and a closing token, such as those of a block comment. -/
structure Delimiters where
  start : String
  stop : String
deriving DecidableEq, Repr, Inhabited

structure LanguageDefinition where
  id : String
  aliases : List String := []
  /-- Suffixes with their leading dot. -/
  extensions : List String := []
  filenames : List String := []
  lineComments : List String := []
  blockComments : List Delimiters := []
  blockStrings : List Delimiters := []
  lineStrings : List Delimiters := []
deriving DecidableEq, Repr, Inhabited

namespace LanguageDefinition

/-- The name that reports show: the first alias, or the id when there is none. -/
def displayName (d : LanguageDefinition) : String := d.aliases.headD d.id

end LanguageDefinition

end LineCensus
