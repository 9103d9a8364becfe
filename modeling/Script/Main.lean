import Script.CommandLine

/-!
# The program

Gathers the arguments, the setting of the call depth and the files that a script can reach, runs the
command on them, and writes what it gives. A script can import only files below its own directory
whose names end in `.vi`, so those are read beforehand. What cannot be read is left out, and so are
links to directories, other than on the way to the script.
-/

namespace Script

private def locationOf (path : String) : Location :=
  (path.splitOn "/").filter (· ≠ "")

private def realOf (place : Location) : IO Location :=
  return locationOf (← IO.FS.realPath ("/" ++ "/".intercalate place)).toString

/-- The links that a path goes by, also at its end. -/
private def linksAlong (start : Location) (path : String) : IO (List (Location × Location)) := do
  let mut base := if path.startsWith "/" then [] else start
  let mut links := []
  for piece in locationOf path do
    let place := base ++ [piece]
    let real ← realOf place
    if piece ≠ "." ∧ piece ≠ ".." ∧ real ≠ place then links := (place, real) :: links
    base := real
  return links

private def addFile (tree : FileTree) (place : Location) : IO FileTree := do
  let real ← realOf place
  let bytes ← IO.FS.readBinFile ("/" ++ "/".intercalate real)
  let links := if real = place then tree.links else (place, real) :: tree.links
  return { tree with nodes := (real, .file bytes) :: tree.nodes, links }

/-- Adds the directories and `.vi` files below a real directory. -/
private partial def addDirectory (tree : FileTree) (place : Location) : IO FileTree := do
  let mut tree := { tree with nodes := (place, .directory) :: tree.nodes }
  for entry in ← (← IO.FS.realPath ("/" ++ "/".intercalate place)).readDir do
    let inner := place ++ [entry.fileName]
    try
      if ← entry.path.isDir then
        if (← realOf inner) = inner then tree ← addDirectory tree inner
      else if entry.fileName.endsWith ".vi" then tree ← addFile tree inner
    catch _ => pure ()
  return tree

private def readTree (file : String) : IO FileTree := do
  let current := locationOf (← IO.currentDir).toString
  let directory := String.ofList (Path.parent file.toList)
  let links ← try linksAlong current file catch _ => pure []
  let mut tree : FileTree := { current, nodes := [], links }
  try
    tree ← addDirectory tree <|
      locationOf (← IO.FS.realPath (if directory = "" then "." else directory)).toString
  catch _ => pure ()
  try
    tree ← addFile tree (locationOf (← IO.FS.realPath file).toString)
  catch _ => pure ()
  return tree

end Script

def main (arguments : List String) : IO UInt32 := do
  let files ← match Script.CommandLine.Invocation.ofArguments? arguments with
    | some invocation => Script.readTree invocation.file
    | none => pure .empty
  let setting ← IO.getEnv "VIOLET_MAX_DEPTH"
  let result := Script.CommandLine.run arguments setting files true
  (← IO.getStdout).write result.output
  (← IO.getStderr).putStr result.errors
  return result.exit.toUInt32
