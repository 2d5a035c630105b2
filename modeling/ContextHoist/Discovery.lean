/-
The files to convert.

A path that leads to a file stands for that file.  A path that leads to a folder stands for the
files below it whose names fit the pattern; folders of installed packages and hidden folders
below it are not entered, and symbolic links are not followed.

* `isSkippedFolder`: the names of folders that are not entered.
* `FileTree.filesBelow`: the files that a folder stands for.
* `FileTree.collect`: the files that some paths stand for, in order and each once.
-/
import ContextHoist.Failure
import ContextHoist.Pattern

namespace ContextHoist

/-- Whether a folder with this name is not entered: the folder of installed packages, and
folders whose name is a dot and more on the same line. -/
def isSkippedFolder (x : String) : Bool :=
  x == "node_modules" ||
    match x.toList with
    | '.' :: rest => !rest.isEmpty && !rest.contains '\n'
    | _ => false

namespace FileTree

/-- The names that lead from one place to another one below it. -/
def below? (top place : Place) : Option Place :=
  match top, place with
  | [], names => if names.isEmpty then none else some names
  | x :: xs, y :: ys => if x == y then below? xs ys else none
  | _ :: _, [] => none

/-- The files below a folder whose names pass the test, outside of folders that are not entered.
Their paths start with the path by which the folder was given. -/
def filesBelow (t : FileTree) (fits : String → Bool) (path : String) (folder : Place) :
    List String :=
  t.files.filterMap fun (place, _) => do
    let names ← below? folder place
    if names.dropLast.any isSkippedFolder || !(names.getLast?.map fits).getD false then none
    else some (names.foldl Path.join path)

/-- The files that one path stands for. -/
def collectFrom (t : FileTree) (fits : String → Bool) (path : String) :
    Except Failure (List String) :=
  match t.find? path with
  | none => .error (.missingInput path)
  | some (folder, .folder) => .ok (t.filesBelow fits path folder)
  | some _ => .ok [path]

/-- Removes paths with the same components as an earlier one. -/
def distinctPaths (paths : List String) : List String :=
  paths.eraseDupsBy Path.same

/-- The files that the paths stand for, in the order of their components.  Of equal paths the
first one is kept. -/
def collect (t : FileTree) (fits : String → Bool) (paths : List String) :
    Except Failure (List String) := do
  let found ← paths.mapM (t.collectFrom fits)
  return (distinctPaths found.flatten).mergeSort Path.le

end FileTree

end ContextHoist
