/-
File trees.

A file tree is a finite set of entries, each with the list of names that leads to it from the
top.  A path is followed segment by segment, through symbolic links.

* `FileTree`: the entries, and the folder in which relative paths start.
* `FileTree.locate`: the entry at the end of a path.
* `FileTree.read`, `FileTree.write`: the text of a file, and the tree with a text changed.
-/
import ContextHoist.Path

namespace ContextHoist

/-- Why a file cannot be read or written. -/
inductive FileError where
  | notFound
  /-- A file stands where the path needs a folder. -/
  | notFolder
  | isFolder
  | tooManyLinks
  /-- The bytes of the file are not text. -/
  | notText
  deriving DecidableEq, Repr, Inhabited

/-- The wording of the operating system. -/
def FileError.message : FileError → String
  | notFound => "No such file or directory (os error 2)"
  | notFolder => "Not a directory (os error 20)"
  | isFolder => "Is a directory (os error 21)"
  | tooManyLinks => "Too many levels of symbolic links (os error 40)"
  | notText => "stream did not contain valid UTF-8"

/-- What a file holds. -/
inductive Content where
  | text (s : String)
  /-- Bytes that are not text. -/
  | binary (bytes : ByteArray)
  deriving Inhabited

/-- The content with the given bytes. -/
def Content.ofBytes (bytes : ByteArray) : Content :=
  match String.fromUTF8? bytes with
  | some s => text s
  | none => binary bytes

/-- What stands at one place of a tree. -/
inductive Entry where
  | file (content : Content)
  | folder
  /-- A symbolic link to the given path. -/
  | link (target : String)
  deriving Inhabited

/-- A place in a tree: the names that lead to it from the top. -/
abbrev Place := List String

/-- The files, folders and links of a tree.  The top itself is a folder and has no entry. -/
structure FileTree where
  entries : List (Place × Entry) := []
  /-- Where relative paths start. -/
  workingFolder : Place := []
  deriving Inhabited

/-- Where a path leads. -/
inductive Location where
  | found (place : Place)
  /-- Nothing is there, but there is a folder that could hold it. -/
  | missing (place : Place)
  deriving DecidableEq, Repr, Inhabited

namespace FileTree

/-! ### Entries -/

/-- The entry at a place. -/
def entry? (t : FileTree) (place : Place) : Option Entry :=
  if place.isEmpty then some .folder else t.entries.lookup place

/-- The tree with another entry at a place. -/
def insert (t : FileTree) (place : Place) (e : Entry) : FileTree :=
  if (t.entries.lookup place).isSome then
    { t with entries := t.entries.map fun (p, old) => if p == place then (p, e) else (p, old) }
  else { t with entries := t.entries ++ [(place, e)] }

/-- The tree with folders on the way to a place where nothing is. -/
def insertFolders (t : FileTree) (place : Place) : FileTree :=
  (List.range place.length).foldl (fun t n =>
    let p := place.take (n + 1)
    if (t.entry? p).isSome then t else t.insert p .folder) t

/-- The tree with an entry at the end of a plain path, and the folders around it. -/
def create (t : FileTree) (path : String) (e : Entry) : FileTree :=
  let place := (Path.segments path).filter fun x => x != "" && x != "."
  match e with
  | .folder => t.insertFolders place
  | _ => (t.insertFolders place.dropLast).insert place e

/-- The places and contents of all files. -/
def files (t : FileTree) : List (Place × Content) :=
  t.entries.filterMap fun (p, e) =>
    match e with
    | .file c => some (p, c)
    | _ => none

/-! ### Following paths -/

/-- Follows the segments of a path from a place.  Each segment needs a folder to start from, also
an empty one.  The number says how many links may still be followed. -/
def follow (t : FileTree) (links : Nat) (place : Place) : List String → Except FileError Location
  | [] => .ok (.found place)
  | x :: rest =>
    match t.entry? place with
    | some .folder =>
      if x == "" || x == "." then t.follow links place rest
      else if x == ".." then t.follow links place.dropLast rest
      else
        match t.entry? (place ++ [x]) with
        | none => if rest.isEmpty then .ok (.missing (place ++ [x])) else .error .notFound
        | some (.link target) =>
          match links with
          | 0 => .error .tooManyLinks
          | links + 1 =>
            if target.startsWith "/" then t.follow links [] (Path.segments target ++ rest)
            else t.follow links place (Path.segments target ++ rest)
        | some _ => t.follow links (place ++ [x]) rest
    | _ => .error .notFolder
termination_by segments => (links, segments.length)

/-- The number of links that may be followed on one path. -/
def maxLinks : Nat := 40

/-- Where a path leads. -/
def locate (t : FileTree) (path : String) : Except FileError Location :=
  if path.isEmpty then .error .notFound
  else if path.startsWith "/" then t.follow maxLinks [] (Path.segments path)
  else t.follow maxLinks t.workingFolder (Path.segments path)

/-- The place and the entry to which a path leads, if there is one. -/
def find? (t : FileTree) (path : String) : Option (Place × Entry) :=
  match t.locate path with
  | .ok (.found place) => (t.entry? place).map (place, ·)
  | _ => none

/-! ### Reading and writing -/

/-- The text of a file. -/
def read (t : FileTree) (path : String) : Except FileError String := do
  match ← t.locate path with
  | .missing _ => throw .notFound
  | .found place =>
    match t.entry? place with
    | some (.file (.text s)) => return s
    | some (.file (.binary _)) => throw .notText
    | some .folder => throw .isFolder
    | _ => throw .notFound

/-- The tree after a text has been written to a file, which is created if need be. -/
def write (t : FileTree) (path : String) (s : String) : Except FileError FileTree := do
  match ← t.locate path with
  | .missing place => return t.insert place (.file (.text s))
  | .found place =>
    match t.entry? place with
    | some .folder => throw .isFolder
    | _ => return t.insert place (.file (.text s))

end FileTree

end ContextHoist
