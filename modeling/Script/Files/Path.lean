/-!
# File paths

A path is a text. Its components are separated by slashes; empty components and single dots, other
than a dot at the front, stand for nothing. An imported module lies beside the file that imports it:
the path `a.b` means the file `a/b.vi` there.
-/

namespace Script.Path

/-- The pieces of a text between its slashes. -/
def splitSlashes : List Char → List (List Char)
  | [] => [[]]
  | c :: cs =>
    if c = '/' then [] :: splitSlashes cs
    else match splitSlashes cs with
      | [] => [[c]]
      | piece :: pieces => (c :: piece) :: pieces

def joinSlashes (pieces : List (List Char)) : List Char :=
  ['/'].intercalate pieces

/-- The part of a path that no parent is taken of: the slash of an absolute path, or a dot at the
front. -/
def head (path : List Char) : List Char :=
  match path with
  | '/' :: _ => ['/']
  | ['.'] | '.' :: '/' :: _ => ['.']
  | _ => []

/-- Leaves out what stands for nothing at the end. -/
def trimPieces (pieces : List (List Char)) : List (List Char) :=
  (pieces.reverse.dropWhile fun piece => piece = [] ∨ piece = ['.']).reverse

/-- The components behind the head, the last one not empty. -/
def pieces (path : List Char) : List (List Char) :=
  trimPieces (splitSlashes (path.drop (head path).length))

/-- The directory that a path lies in; the empty path where there is none. -/
def parent (path : List Char) : List Char :=
  match pieces path with
  | [] => []
  | pieces@(_ :: _) => head path ++ joinSlashes (trimPieces pieces.dropLast)

/-- Goes on from `base` along `path`, which replaces it when absolute. -/
def join (base path : List Char) : List Char :=
  match path with
  | '/' :: _ => path
  | _ => if base = [] ∨ base.getLast? = some '/' then base ++ path else base ++ '/' :: path

/-- The last component, if it names something. -/
def fileName? (path : List Char) : Option (List Char) :=
  (pieces path).getLast?.filter fun name => name ≠ ['.', '.']

/-- Splits a name at its last dot, which must not be its first character. -/
def splitExtension (name : List Char) : List Char × Option (List Char) :=
  let ext := (name.reverse.takeWhile (· ≠ '.')).reverse
  let stem := name.take (name.length - ext.length - 1)
  if ext.length = name.length ∨ stem = [] then (name, none) else (stem, some ext)

/-- Cuts a path behind the stem of its last component and adds an extension there. A path whose last
component names nothing stays as it is. -/
def setExtension (ext path : List Char) : List Char :=
  match fileName? path with
  | none => path
  | some name =>
    head path ++ joinSlashes ((pieces path).dropLast ++ [(splitExtension name).1]) ++ '.' :: ext

/-- Gives the last component another extension in place of the one it has. -/
def withExtension (ext path : List Char) : List Char :=
  match (fileName? path).bind fun name => (splitExtension name).2 with
  | none => setExtension ext path
  | some old => setExtension ext (path.take (path.length - old.length))

/-- The file of a module that the file `importer` imports. -/
def ofModule (importer : String) (module : List String) : String :=
  let relative := module.foldl (fun path piece => join path piece.toList) []
  String.ofList (withExtension ['v', 'i'] (join (parent importer.toList) relative))

end Script.Path
