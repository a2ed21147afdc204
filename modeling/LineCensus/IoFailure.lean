/-!
# Failures of the file system

What can go wrong when a path is opened, read or written, in the words of the system.
-/
namespace LineCensus

inductive IoFailure
  | notFound
  | alreadyExists
  | notADirectory
  | isADirectory
  | tooManyLinks
  | nameTooLong
  | permissionDenied
  /-- A path with a character that ends texts. -/
  | nulInPath
  /-- Bytes that are no text. -/
  | invalidText
  /-- A scan was asked for below something else than a directory. -/
  | noRoot (path : String)
  /-- A failure in the words of whoever met it. -/
  | other (message : String)
deriving DecidableEq, Repr, Inhabited

def IoFailure.message : IoFailure → String
  | notFound => "No such file or directory (os error 2)"
  | permissionDenied => "Permission denied (os error 13)"
  | alreadyExists => "File exists (os error 17)"
  | notADirectory => "Not a directory (os error 20)"
  | isADirectory => "Is a directory (os error 21)"
  | nameTooLong => "File name too long (os error 36)"
  | tooManyLinks => "Too many levels of symbolic links (os error 40)"
  | nulInPath => "file name contained an unexpected NUL byte"
  | invalidText => "stream did not contain valid UTF-8"
  | noRoot path => path ++ " is not a directory"
  | other message => message

end LineCensus
