import Script.Files.Path
import Script.Text.Outline
import Script.Text.Quoted

/-!
# File trees

The files a program can see, which do not change while it runs, and the directory that relative
paths start from. A path that leads to a file or directory leads to one place: the components from the
root, without detours. Every directory along a path must exist, also one that the path leaves again.
A place can be a link, which stands for another location. So several places may stand for one file,
but the file has one real location.
-/

namespace Script

/-- Why a file could not be read. -/
inductive ReadError where
  | notFound
  | isDirectory
  | notDirectory
  | nameTooLong
  | nulInName
  | invalidText
  | other (message : String)
  deriving DecidableEq, Inhabited

namespace ReadError

/-- The system's number, class and words for a reason of its own. -/
def system? : ReadError → Option (Nat × String × String)
  | notFound => some (2, "NotFound", "No such file or directory")
  | notDirectory => some (20, "NotADirectory", "Not a directory")
  | isDirectory => some (21, "IsADirectory", "Is a directory")
  | nameTooLong => some (36, "InvalidFilename", "File name too long")
  | _ => none

def message (e : ReadError) : String :=
  match e.system?, e with
  | some (code, _, words), _ => s!"{words} (os error {code})"
  | none, nulInName => "file name contained an unexpected NUL byte"
  | none, other message => message
  | none, _ => "stream did not contain valid UTF-8"

def outline (e : ReadError) : Outline :=
  match e.system?, e with
  | some (code, kind, words), _ =>
    .record "Os" [("code", .leaf (toString code)), ("kind", .leaf kind),
      ("message", .leaf (quote words))]
  | none, other message =>
    .record "Custom" [("kind", .leaf "Other"), ("error", .leaf (quote message))]
  | none, e =>
    .record "Error" [
      ("kind", .leaf (if e = nulInName then "InvalidInput" else "InvalidData")),
      ("message", .leaf (quote e.message))]

end ReadError

inductive FileNode where
  | file (bytes : ByteArray)
  | directory
  deriving Inhabited

/-- The components of a place in a tree, from the root on. -/
abbrev Location := List String

structure FileTree where
  /-- Where relative paths start. -/
  current : Location
  nodes : List (Location × FileNode)
  /-- The links, each with the real location that it stands for. -/
  links : List (Location × Location) := []
  deriving Inhabited

namespace FileTree

def empty : FileTree := { current := [], nodes := [] }

def follow (tree : FileTree) (place : Location) : Location :=
  (tree.links.lookup place).getD place

/-- The location that a place stands for when the links on the way are followed, the last one too. -/
def real (tree : FileTree) (place : Location) : Location :=
  place.foldl (fun location piece => tree.follow (location ++ [piece])) []

/-- What lies at a real location. What is on the way to something is a directory. -/
def entry? (tree : FileTree) (location : Location) : Option FileNode :=
  match tree.nodes.lookup location with
  | some node => some node
  | none =>
    if location.isPrefixOf tree.current || tree.nodes.any (fun (place, _) => location.isPrefixOf place)
    then some .directory else none

/-- What a place stands for. -/
def node? (tree : FileTree) (place : Location) : Option FileNode := tree.entry? (tree.real place)

/-- Goes from a place along the components of a path. What is left upwards is a real directory. -/
def walk (tree : FileTree) (place : Location) : List String → Except ReadError Location
  | [] => .ok place
  | piece :: pieces =>
    match tree.node? place with
    | none => .error .notFound
    | some (.file _) => .error .notDirectory
    | some .directory =>
      if piece = "" ∨ piece = "." then tree.walk place pieces
      else if piece = ".." then tree.walk (tree.real place).dropLast pieces
      else if piece.utf8ByteSize > 255 then .error .nameTooLong
      else if (tree.node? (place ++ [piece])).isSome then
        tree.walk (place ++ [piece]) pieces
      else .error .notFound

/-- The place that a path leads to. A path may be of any length. -/
def locate (tree : FileTree) (path : String) : Except ReadError Location :=
  if path = "" then .error .notFound
  else if path.toList.contains '\x00' then .error .nulInName
  else
    let start := if path.toList.head? = some '/' then [] else tree.current
    tree.walk start ((Path.splitSlashes path.toList).map String.ofList)

/-- The real location of what a path leads to. -/
def canonicalize (tree : FileTree) (path : String) : Except ReadError Location := do
  let place ← tree.locate path
  if (tree.node? place).isNone then throw .notFound
  return tree.real place

/-- The most bytes of a path by which a file can be opened. -/
def maxPathBytes : Nat := 4095

/-- The text of the file that a path leads to. A path that is too long to open a file by is refused
before anything is looked for. -/
def read (tree : FileTree) (path : String) : Except ReadError String := do
  if path.utf8ByteSize > maxPathBytes ∧ !path.toList.contains '\x00' then throw .nameTooLong
  match tree.node? (← tree.locate path) with
  | none => throw .notFound
  | some .directory => throw .isDirectory
  | some (.file bytes) =>
    match String.fromUTF8? bytes with
    | some text => return text
    | none => throw .invalidText

end FileTree

end Script
