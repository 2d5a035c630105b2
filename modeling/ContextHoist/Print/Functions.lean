/-
Printing patterns, functions and classes.
-/
import ContextHoist.Print.Types

namespace ContextHoist

namespace Printer

/-! ### Patterns -/

/-- Elements of an array or of an array pattern, with `, ` after a last hole. -/
def endsInHole (ts : List Tree) : Bool :=
  match ts.getLast? with
  | some t => t.label == .absent
  | none => false

/-- A pattern, or a property of a pattern. -/
def pattern (sub : Phrases) (l : Label) (parts : List Tree) : Printer Unit :=
  match l, parts with
  | .arrayPattern, ts => do
    write "["
    commaList (fun t => if t.isPresent then closed sub t else return ()) ts
    if endsInHole ts then write ", "
    write "]"
  | .objectPattern, [] => write "\x7b\x7d"
  | .objectPattern, ts => do
    write "\x7b "
    commaList sub ts
    write " \x7d"
  | .restPattern, [p, t] => do
    write "..."
    closed sub p
    typeMark sub t
  | .defaultPattern, [p, e] => do
    closed sub p
    write " = "
    closed sub e
  | .keyValuePattern, [k, p] => do
    sub k
    write ": "
    closed sub p
  | .shorthandPattern, [x, e] => do
    sub x
    ifPresent e do
      write " = "
      closed sub e
  | .annotated isOptional, [p, t] => do
    sub p
    if isOptional then write "?"
    typeMark sub t
  | _, _ => return ()

/-! ### Blocks and functions -/

/-- Statements in braces.  Comments in front of the closing brace are printed at the outer
level, and keep an empty block from being closed on the same line. -/
def block (sub : Phrases) (s : Span) (ts : List Tree) : Printer Unit := do
  write "\x7b"
  let hasComments ← hasLeading (s.stop - 1)
  if !ts.isEmpty then lines "" sub ts
  else if hasComments then newline
  leading (s.stop - 1)
  write "\x7d"

/-- The parameters of a function, its result, and its body or a semicolon. -/
def functionTail (sub : Phrases) (ps body tps r : Tree) : Printer Unit := do
  sub tps
  write "("
  commaList sub (members ps)
  write ")"
  typeMark sub r
  if body.isPresent then
    write " "
    sub body
  else write ";"

/-- The word `function` with what stands around it, up to the name. -/
def functionHead (isAsync isGenerator : Bool) : Printer Unit := do
  flag isAsync "async"
  write (if isGenerator then "function*" else "function")

/-- A parameter: each decorator on a line of its own. -/
def parameter (sub : Phrases) (ds p : Tree) : Printer Unit := do
  unless (members ds).isEmpty do
    newline
    (members ds).forM sub
  closed sub p

/-- The modifiers of a member in their fixed order. -/
def modifiers (m : Modifiers) : Printer Unit := do
  flag m.isDeclare "declare"
  flag (m.accessibility != "") m.accessibility
  flag m.isStatic "static"
  flag m.isAbstract "abstract"
  flag m.isOverride "override"
  flag m.isReadonly "readonly"
  flag m.isAccessor "accessor"

/-- A function, an arrow function, or a part of one. -/
def function (sub : Phrases) (l : Label) (parts : List Tree) : Printer Unit :=
  match l, parts with
  | .functionExpr, [x, .node (.function isAsync isGenerator) _ [ps, _, body, tps, r]] => do
    functionHead isAsync isGenerator
    ifPresent x do
      write " "
      sub x
    functionTail sub ps body tps r
  | .functionDecl isDeclare,
      [x, .node (.function isAsync isGenerator) _ [ps, _, body, tps, r]] => do
    flag isDeclare "declare"
    functionHead isAsync isGenerator
    write " "
    sub x
    functionTail sub ps body tps r
  | .parameter, [ds, p] => parameter sub ds p
  | .parameterProperty m, [ds, p] => do
    unless (members ds).isEmpty do
      newline
      (members ds).forM sub
    modifiers m
    closed sub p
  | .arrow isAsync, [ps, body, tps, r] => do
    flag isAsync "async"
    sub tps
    write "("
    commaList (closed sub) (members ps)
    write ")"
    ifPresent r do
      typeMark sub r
      write " "
    write "=>"
    if body.label == .block then sub body
    else indented (closed sub body)
  | .method, [k, .node (.function isAsync isGenerator) _ [ps, _, body, tps, r]] => do
    flag isAsync "async"
    if isGenerator then write "*"
    sub k
    write " "
    functionTail sub ps body tps r
  | .getter, [k, t, body] => do
    write "get "
    sub k
    write " ()"
    typeMark sub t
    write " "
    sub body
  | .setter, [k, p, body] => do
    write "set "
    sub k
    write " ("
    closed sub p
    write ")"
    sub body
  | _, _ => return ()

/-! ### Classes -/

/-- A member of a class. -/
def classMember (sub : Phrases) (l : Label) (parts : List Tree) : Printer Unit :=
  match l, parts with
  | .classMethod kind m, [k, .node (.function isAsync isGenerator) _ [ps, ds, body, tps, r]] => do
    (members ds).forM sub
    modifiers m
    match kind with
    | .method =>
      flag isAsync "async"
      if isGenerator then write "*"
    | .getter => write "get "
    | .setter => write "set "
    sub k
    if m.isOptional then write "?"
    functionTail sub ps body tps r
  | .constructorMember m, [_, ps, body] => do
    modifiers m
    write "constructor("
    commaList sub (members ps)
    write ")"
    if body.isPresent then sub body else write ";"
  | .field m, [k, v, t, ds] => do
    (members ds).forM sub
    modifiers m
    sub k
    if m.isOptional then write "?"
    if m.isDefinite then write "!"
    typeMark sub t
    ifPresent v do
      write " = "
      closed sub v
    write ";"
  | .staticBlock, [b] => do
    write "static"
    sub b
  | .emptyMember, _ => write ";"
  | .decorator, [e] => do
    write "@"
    closed sub e
    newline
  | _, _ => return ()

/-- A class from the word `class` on. -/
def classTail (sub : Phrases) (x c : Tree) : Printer Unit :=
  match c with
  | .node (.classBody isAbstract) _ [_, ms, super, tps, superArgs, impls] => do
    flag isAbstract "abstract"
    write "class"
    ifPresent x do
      write " "
      sub x
    sub tps
    ifPresent super do
      write " extends "
      closed sub super
      sub superArgs
    unless (members impls).isEmpty do
      write " implements "
      commaList sub (members impls)
    write " \x7b"
    lines "" (fun m => match m with
      | .node (.indexSignature a b) s ts => do
        leading s.start
        typeMember sub (.indexSignature a b) ts
      | _ => sub m) (members ms)
    write "\x7d"
  | _ => return ()

/-- The decorators of a class. -/
def classDecorators (c : Tree) : List Tree :=
  match c with
  | .node (.classBody _) _ (ds :: _) => members ds
  | _ => []

end Printer

end ContextHoist
