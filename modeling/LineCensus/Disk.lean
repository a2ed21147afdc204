import LineCensus.IoFailure
import LineCensus.Path
import LineCensus.Text.Utf8

/-!
# The disk

A tree of files, directories and symbolic links. A path is followed from the root or
from the working directory, one segment after the other; a link puts the path it holds
in its own place, up to a fixed number of times. Names and paths have a greatest length.

Names are texts, and a system has their UTF-8 for them. Names whose bytes are no text stand on
no disk here. A report could show them with replacement characters only, and two of them might
then look alike.
-/
namespace LineCensus

inductive Node
  | file (bytes : List UInt8)
  | directory (children : List (String × Node))
  | link (target : String)
  /-- A file that exists but cannot be read. -/
  | locked (cause : IoFailure)
  /-- A device that is always empty and keeps nothing of what is written to it. -/
  | sink
deriving Inhabited

namespace Node

def child? (name : String) : Node → Option Node
  | directory children => children.lookup name
  | _ => none

def isDirectory : Node → Bool
  | directory _ => true
  | _ => false

/-- The node at the end of a list of names. -/
def get? : List String → Node → Option Node
  | [], n => some n
  | name :: names, n => (n.child? name).bind (get? names)

/-- Puts a child under a name, in place of the one that is there. -/
def setChild (name : String) (child : Node) : List (String × Node) → List (String × Node)
  | [] => [(name, child)]
  | c :: cs => if c.1 = name then (name, child) :: cs else c :: setChild name child cs

/-- Puts a node at the end of a list of names; the directories on the way must exist. -/
def set (new : Node) : List String → Node → Node
  | [], _ => new
  | name :: names, directory children =>
    match children.lookup name with
    | some c => directory (setChild name (set new names c) children)
    | none => if names.isEmpty then directory (setChild name new children) else directory children
  | _ :: _, n => n

end Node

/-- A segment of a path as it is followed. What has one behind it must be a directory. -/
inductive Segment
  /-- Nothing between two slashes, or behind the last one. -/
  | nothing
  | here
  | up
  | into (name : String)
deriving DecidableEq, Repr

def Segment.ofText (s : String) : Segment :=
  if s == "" then nothing else if s == "." then here else if s == ".." then up else into s

/-- The character that ends texts stands in no name. -/
def Path.hasNul (p : Path) : Bool := p.text.toList.contains '\x00'

/-- The segments of a path. -/
def Path.way (p : Path) : List Segment := p.segments.map .ofText

/-- A disk and the names that lead to the working directory. -/
structure Disk where
  root : Node := .directory []
  current : List String := []
deriving Inhabited

namespace Disk

/-- Where a path leads: to a node, or to a free name in a directory. -/
inductive Place
  | taken (names : List String)
  | free (directory : List String) (name : String)
deriving DecidableEq, Repr

/-- What the name at the end of a path is asked for. -/
inductive Purpose
  /-- What the name leads to, links followed. -/
  | reach
  /-- What the name leads to, or else the name for a new file. -/
  | write
  /-- What stands under the name itself, or else the name. -/
  | create
deriving DecidableEq, Repr

/-- How many links may be followed on one path. -/
def maxLinks : Nat := 40

/-- How many bytes a name may have. -/
def maxName : Nat := 255

/-- How many bytes a path may have that is handed to the system. -/
def maxPath : Nat := 4095

/-- Follows segments from a directory. Slashes at the end make no difference to what is
created, but there is no file to be written under a name that has them. -/
def follow (root : Node) (purpose : Purpose) (links : Nat) (place : List String)
    (todo : List Segment) : Except IoFailure Place :=
  match todo with
  | [] => .ok (.taken place)
  | segment :: rest =>
    match root.get? place with
    | some (.directory children) =>
      match segment with
      | .nothing => follow root purpose links place rest
      | .here => follow root purpose links place rest
      | .up => follow root purpose links place.dropLast rest
      | .into name =>
        let isLast := rest.all (· == .nothing)
        if purpose == .write && isLast && !rest.isEmpty then .error .isADirectory
        else if maxName < name.utf8ByteSize then .error .nameTooLong
        else match children.lookup name with
          | none =>
            if rest.isEmpty || (purpose == .create && isLast) then .ok (.free place name)
            else .error .notFound
          | some (.link target) =>
            if purpose == .create && isLast then .ok (.taken (place ++ [name]))
            else match links with
              | 0 => .error .tooManyLinks
              | links + 1 =>
                let path : Path := ⟨target⟩
                follow root purpose links (if path.isAbsolute then [] else place)
                  (path.way ++ rest)
          | some _ =>
            if purpose == .create && isLast then .ok (.taken (place ++ [name]))
            else follow root purpose links (place ++ [name]) rest
    | _ => .error .notADirectory
termination_by (links, todo.length)

/-- Where a path of any length leads. An empty path leads nowhere. -/
def trace (d : Disk) (purpose : Purpose) (p : Path) : Except IoFailure Place :=
  if p.hasNul then .error .nulInPath
  else if p.text.isEmpty then .error .notFound
  else follow d.root purpose maxLinks (if p.isAbsolute then [] else d.current) p.way

/-- Where a path leads that is handed to the system as a whole. -/
def locate (d : Disk) (purpose : Purpose) (p : Path) : Except IoFailure Place :=
  if maxPath < p.text.utf8ByteSize && !p.hasNul then .error .nameTooLong
  else d.trace purpose p

/-- The names of a place where there is something. -/
def Place.names? : Place → Except IoFailure (List String)
  | taken names => .ok names
  | free _ _ => .error .notFound

/-- The names that lead to the node a path stands for, without links. -/
def resolve (d : Disk) (p : Path) : Except IoFailure (List String) :=
  (d.locate .reach p).bind Place.names?

/-- The absolute path of names. -/
def absolute (names : List String) : Path := ⟨"/" ++ joinSlash names⟩

/-- The absolute path without links that leads to the same node. It is found name by
name, so the path may be of any length. -/
def canonicalize (d : Disk) (p : Path) : Except IoFailure Path :=
  ((d.trace .reach p).bind Place.names?).map absolute

def node? (d : Disk) (p : Path) : Option Node :=
  match d.resolve p with
  | .ok names => d.root.get? names
  | .error _ => none

def exists? (d : Disk) (p : Path) : Bool := (d.node? p).isSome

def isDirectory (d : Disk) (p : Path) : Bool := (d.node? p).any Node.isDirectory

def isFile (d : Disk) (p : Path) : Bool :=
  match d.node? p with
  | some (.file _) => true
  | some (.locked _) => true
  | _ => false

/-- The bytes of a file. -/
def readBytes (d : Disk) (p : Path) : Except IoFailure (List UInt8) :=
  match d.resolve p with
  | .error cause => .error cause
  | .ok names =>
    match d.root.get? names with
    | some (.file bytes) => .ok bytes
    | some .sink => .ok []
    | some (.directory _) => .error .isADirectory
    | some (.locked cause) => .error cause
    | _ => .error .notFound

/-- The text of a file. -/
def readText (d : Disk) (p : Path) : Except IoFailure String :=
  match d.readBytes p with
  | .error cause => .error cause
  | .ok bytes =>
    match Text.Utf8.decode? bytes with
    | some s => .ok (String.ofList s)
    | none => .error .invalidText

/-! ## Changes -/

def put (d : Disk) (names : List String) (node : Node) : Disk :=
  { d with root := Node.set node names d.root }

/-- Writes a file, a new one or over one that is there. -/
def write (d : Disk) (p : Path) (bytes : List UInt8) : Except IoFailure Disk :=
  match d.locate .write p with
  | .error cause => .error cause
  | .ok (.free directory name) => .ok (d.put (directory ++ [name]) (.file bytes))
  | .ok (.taken names) =>
    match d.root.get? names with
    | some (.directory _) => .error .isADirectory
    | some (.locked cause) => .error cause
    | some .sink => .ok d
    | _ => .ok (d.put names (.file bytes))

/-- Puts a node at a path where nothing is. -/
def create (d : Disk) (p : Path) (node : Node) : Except IoFailure Disk :=
  match d.locate .create p with
  | .error cause => .error cause
  | .ok (.taken _) => .error .alreadyExists
  | .ok (.free directory name) => .ok (d.put (directory ++ [name]) node)

def makeDirectory (d : Disk) (p : Path) : Except IoFailure Disk := d.create p (.directory [])

/-- Makes a directory and those on the way to it. Each try may go one directory up, so
the components of the path bound the tries. -/
def makeAll (d : Disk) (p : Path) : Nat → Except IoFailure Disk
  | 0 => .ok d
  | tries + 1 =>
    if p.text.isEmpty then .ok d
    else
      let once (d : Disk) : Except IoFailure Disk :=
        match d.makeDirectory p with
        | .ok d => .ok d
        | .error cause => if d.isDirectory p then .ok d else .error cause
      match d.makeDirectory p with
      | .ok d => .ok d
      | .error .notFound =>
        match p.parentPath? with
        | none => .error (.other "failed to create whole tree")
        | some parent =>
          match d.makeAll parent tries with
          | .ok d => once d
          | .error cause => .error cause
      | .error _ => once d

def makeDirectories (d : Disk) (p : Path) : Except IoFailure Disk :=
  d.makeAll p (p.components.length + 2)

/-! ## All files -/

mutual

/-- The files of a node, with the names that lead to them. -/
def filesOf (names : List String) : Node → List (List String × List UInt8)
  | .file bytes => [(names, bytes)]
  | .directory children => filesOfChildren names children
  | _ => []

def filesOfChildren (names : List String) :
    List (String × Node) → List (List String × List UInt8)
  | [] => []
  | c :: cs => filesOfChild names c ++ filesOfChildren names cs

def filesOfChild (names : List String) : String × Node → List (List String × List UInt8)
  | (name, n) => filesOf (names ++ [name]) n

end

/-- The files below a directory, by the names that lead to them from there. -/
def filesBelow (d : Disk) (names : List String) : List (List String × List UInt8) :=
  ((d.root.get? names).map (filesOf [])).getD []

/-- Whether a file is there with just these bytes. -/
def holdsFile (d : Disk) (names : List String) (bytes : List UInt8) : Bool :=
  match d.root.get? names with
  | some (.file old) => old == bytes
  | _ => false

/-- The files below a directory that are not the same on an earlier disk. -/
def changedSince (d earlier : Disk) (names : List String) : List (List String × List UInt8) :=
  (d.filesBelow names).filter fun e => !earlier.holdsFile (names ++ e.1) e.2

end Disk

end LineCensus
