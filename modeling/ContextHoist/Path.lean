/-
Paths of files as text.

* `Path.components`: the parts of a path.  Repeated slashes and inner dots do not count.
* `Path.le`: paths are ordered part by part, so a folder's files stay together.
* `Path.extension?`: the ending of a file name, by which the dialect of a file is chosen.
* `Path.quoted`: a path between double quotes.
-/
namespace ContextHoist

namespace Path

/-- One part of a path. -/
inductive Component where
  /-- The slash at the front. -/
  | root
  /-- The dot at the front. -/
  | here
  /-- Two dots: the folder around. -/
  | up
  | name (text : String)
  deriving DecidableEq, Repr, Inhabited

namespace Component

/-- The place of a component in the order of components that differ in kind. -/
def rank : Component → Nat
  | root => 0
  | here => 1
  | up => 2
  | name _ => 3

/-- The order of components: by kind, and names by their code points. -/
def lt : Component → Component → Bool
  | name x, name y => decide (x < y)
  | a, b => decide (a.rank < b.rank)

end Component

/-- The text between slashes. -/
def segments (path : String) : List String :=
  (path.toList.splitOn '/').map String.ofList

/-- The component for a segment that is not the first one of a path. -/
def innerComponent? : String → Option Component
  | "" => none
  | "." => none
  | ".." => some .up
  | x => some (.name x)

/-- The parts of a path.  A slash or a dot counts only at the front. -/
def components (path : String) : List Component :=
  match segments path with
  | [] => []
  | [""] => []
  | "" :: rest => .root :: rest.filterMap innerComponent?
  | "." :: rest => .here :: rest.filterMap innerComponent?
  | all => all.filterMap innerComponent?

/-- The order of lists of components: the first difference decides, and a list comes before its
extensions. -/
def componentsLe : List Component → List Component → Bool
  | [], _ => true
  | _ :: _, [] => false
  | a :: as, b :: bs => a.lt b || (a == b && componentsLe as bs)

/-- Whether a path comes before another one or has the same components. -/
def le (p q : String) : Bool :=
  componentsLe (components p) (components q)

/-- Whether two paths have the same components. -/
def same (p q : String) : Bool :=
  components p == components q

/-- The last component, if it is a name. -/
def fileName? (path : String) : Option String :=
  match (components path).getLast? with
  | some (.name x) => some x
  | _ => none

/-- The text after the last dot of the file name, unless the dot is missing or stands first. -/
def extension? (path : String) : Option String := do
  let x ← fileName? path
  let ending := x.toList.reverse.takeWhile (· != '.')
  let stem := x.toList.reverse.drop (ending.length + 1)
  if stem.isEmpty then none else some (String.ofList ending.reverse)

/-- The path of a name inside a folder. -/
def join (folder : String) (x : String) : String :=
  if folder.isEmpty || folder.endsWith "/" then folder ++ x else folder ++ "/" ++ x

/-- A character as it is written between double quotes. -/
def quotedChar (c : Char) : String :=
  if c == '"' then "\\\""
  else if c == '\\' then "\\\\"
  else if c == '\n' then "\\n"
  else if c == '\r' then "\\r"
  else if c == '\t' then "\\t"
  else if c == '\x00' then "\\0"
  else if c.toNat < 32 || c.toNat == 127 then
    "\\u\x7b" ++ String.ofList (Nat.toDigits 16 c.toNat) ++ "\x7d"
  else c.toString

/-- A path between double quotes. -/
def quoted (path : String) : String :=
  "\"" ++ String.join (path.toList.map quotedChar) ++ "\""

end Path

end ContextHoist
