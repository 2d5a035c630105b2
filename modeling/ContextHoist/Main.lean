/-
The program.

It takes a picture of the part of the file system that the command is about, carries the command
out on the picture, and then writes the files that have changed.
-/
import ContextHoist.CommandLine

namespace ContextHoist

/-- The names on an absolute path. -/
def placeOf (path : String) : Place :=
  (Path.segments path).filter fun x => x != "" && x != "."

/-- The absolute path of a place. -/
def pathOf (place : Place) : String :=
  "/" ++ "/".intercalate place

/-- Takes in a file or a folder with all that is below it.  Links inside of folders, and folders
that are not entered, are left out. -/
partial def takePicture (t : FileTree) (place : Place) : IO FileTree := do
  let here := (← IO.currentDir) / pathOf place
  if ← here.isDir then
    let mut t := t.insertFolders place
    for e in ← here.readDir do
      let real ← IO.FS.realPath e.path
      if real.toString == (here / e.fileName).toString then
        unless (← e.path.isDir) && isSkippedFolder e.fileName do
          t ← takePicture t (place ++ [e.fileName])
    return t
  else
    let bytes ← IO.FS.readBinFile here
    return (t.insertFolders place.dropLast).insert place (.file (.ofBytes bytes))

/-- Takes in what a path leads to.  The folders on the way are taken in one by one, and a link on
the way is replaced by a link to its final target. -/
partial def takePath (t : FileTree) (place : Place) : List String → IO FileTree
  | [] => takePicture t place
  | x :: rest => do
    if x == "" || x == "." then takePath t place rest
    else if x == ".." then takePath t place.dropLast rest
    else
      let t := t.insertFolders place
      let next := place ++ [x]
      let here := (← IO.currentDir) / pathOf next
      unless ← here.pathExists do return t
      let real := placeOf (← IO.FS.realPath here).toString
      if real == next then takePath t next rest
      else takePath (t.insert next (.link (pathOf real))) real rest

/-- The picture for a command. -/
def pictureFor (command : Command) : IO FileTree := do
  let workingFolder := placeOf (← IO.currentDir).toString
  let mut t : FileTree := { workingFolder }
  t := t.insertFolders workingFolder
  for path in command.paths do
    t ← takePath t (if path.startsWith "/" then [] else workingFolder) (Path.segments path)
  return t

/-- Whether two contents are the same text. -/
def sameText : Option Entry → Content → Bool
  | some (.file (.text a)), .text b => a == b
  | some (.file (.binary _)), .binary _ => true
  | _, _ => false

/-- Writes the files whose text is not that of the first tree. -/
def writeChanges (before after : FileTree) : IO Unit := do
  for (place, content) in after.files do
    unless sameText (before.entry? place) content do
      match content with
      | .text s => IO.FS.writeFile (pathOf place) s
      | .binary _ => pure ()

end ContextHoist

open ContextHoist in
/-- Carries out the command that the arguments stand for. -/
def main (args : List String) : IO UInt32 := do
  let before ←
    match Command.parse? args with
    | some command => pictureFor command
    | none => pure {}
  let result := CommandLine.run before args
  writeChanges before result.tree
  IO.print result.output
  for line in result.errors do
    IO.eprintln line
  return result.code.toUInt32
