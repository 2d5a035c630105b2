/-
Printing expressions and elements.
-/
import ContextHoist.Print.Functions

namespace ContextHoist

namespace Printer

/-! ### What decides about spaces and parentheses -/

/-- Whether a space must separate the operator from its operand, so that the two signs do not
become one. -/
def signsMeet (op : String) (t : Tree) : Bool :=
  match t.label with
  | .unary p => op == p && (op == "+" || op == "-")
  | .update p isPrefix => isPrefix && ((op == "+" && p == "++") || (op == "-" && p == "--"))
  | _ => false

/-- Whether the text is a number whose point would be read as part of it. -/
def needsSecondPoint (raw : String) : Bool :=
  match raw.toList with
  | [] => false
  | c :: cs => (c :: cs).all (fun d => d.isDigit || d == '_') && (c != '0' || cs.isEmpty)

/-- Whether the comment would separate a keyword from its argument by a line break. -/
def breaksLine (r : Remark) : Bool :=
  !r.isBlock || r.text.toList.contains '\n'

/-- The starts of an expression and of the expressions it starts with. -/
def starts : Tree → List Nat
  | .node l s (t :: _) =>
    match l with
    | .call | .member | .binary _ | .conditional | .sequence | .assign _ | .tagged | .update _ _
    | .chainMember _ | .chainCall _ | .asExpr | .satisfiesExpr | .nonNull | .constAssertion
    | .instantiation => s.start :: starts t
    | _ => [s.start]
  | .node _ s [] => [s.start]

/-- Whether the argument of a keyword must be put in parentheses because of a comment. -/
def needsParens (t : Tree) : Printer Bool := do
  let o ← get
  return (starts t).any fun p => (o.comments.leading.find p).any breaksLine

/-- The argument of a keyword that no line break may follow. -/
def keywordArgument (sub : Phrases) (t : Tree) : Printer Unit := do
  if ← needsParens t then
    write "("
    closed sub t
    write ")"
  else
    write " "
    closed sub t

/-- The text of a template with every line end written as a line feed. -/
def normalizeBreaks : List Char → List Char
  | '\r' :: '\n' :: cs => '\n' :: normalizeBreaks cs
  | '\r' :: cs => '\n' :: normalizeBreaks cs
  | c :: cs => c :: normalizeBreaks cs
  | [] => []

/-! ### Expressions -/

/-- A leaf. -/
def leafText : Label → Option String
  | .name x | .key x => some x
  | .privateName x => some ("#" ++ x)
  | .thisExpr => some "this"
  | .superRef => some "super"
  | .importRef => some "import"
  | .metaProperty x => some x
  | .number raw | .string raw | .literal raw => some raw
  | .chunk raw => some (String.ofList (normalizeBreaks raw.toList))
  | .elementText raw => some raw
  | _ => none

/-- The arguments of a call in parentheses. -/
def callArguments (sub : Phrases) (args : Tree) : Printer Unit := do
  write "("
  commaList (closed sub) (members args)
  write ")"

/-- The point or brackets of a member access, and the property. -/
def property (sub : Phrases) (object p : Tree) : Printer Unit := do
  match p.label with
  | .computed => sub p
  | .key _ =>
    match object.label with
    | .number raw =>
      if needsSecondPoint raw then
        leading (p.span.start - 2)
        write "."
    | _ => pure ()
    leading (p.span.start - 1)
    write "."
    sub p
  | _ =>
    write "."
    sub p

/-- A template between its marks; the chunks of a tagged one are printed as they stand. -/
def template (sub : Phrases) (isTagged : Bool) (ts : List Tree) : Printer Unit := do
  write "\x60"
  templateBody (fun c => match c.label with
    | .chunk raw => if isTagged then write raw else sub c
    | _ => sub c) (closed sub) ts
  write "\x60"

/-- An expression, or a property of an object literal. -/
def expression (sub : Phrases) (l : Label) (parts : List Tree) : Printer Unit :=
  match l, parts with
  | .array, [] => write "[]"
  | .array, ts => do
    write "["
    newline
    indented do
      eachLine "," (fun t => if t.isPresent then closed sub t else return ()) ts
      if endsInHole ts then write ", "
    newline
    write "]"
  | .object, [] => write "\x7b\x7d"
  | .object, ts => do
    write "\x7b"
    lines "," sub ts
    write "\x7d"
  | .shorthand, [x] => sub x
  | .shorthandDefault, [x, e] => do
    sub x
    write "="
    closed sub e
  | .keyValue, [k, v] => do
    sub k
    write ": "
    closed sub v
  | .spread, [e] => do
    write "..."
    closed sub e
  | .computed, [e] => do
    write "["
    closed sub e
    write "]"
  | .classExpr, [x, c] => do
    (classDecorators c).forM sub
    classTail sub x c
  | .unary op, [e] => do
    write op
    if signsMeet op e || op.toList.any Char.isAlpha then write " "
    closed sub e
  | .update op true, [e] => do
    write op
    closed sub e
  | .update op false, [e] => do
    closed sub e
    write op
  | .binary op, [a, b] => do
    closed sub a
    write (" " ++ op ++ " ")
    closed sub b
  | .assign op, [a, b] => do
    sub a
    write (" " ++ op ++ " ")
    closed sub b
  | .member, [e, p] => do
    closed sub e
    property sub e p
  | .superMember, [e, p] => do
    sub e
    if p.label != .computed then write "."
    sub p
  | .chainMember isOptional, [e, p] => do
    closed sub e
    if isOptional then write "?."
    else if p.label != .computed then write "."
    sub p
  | .conditional, [t, a, b] => do
    closed sub t
    write " ? "
    closed sub a
    write " : "
    closed sub b
  | .call, [f, args, types] => do
    if f.label == .superRef || f.label == .importRef then sub f else closed sub f
    sub types
    callArguments sub args
  | .chainCall isOptional, [f, args, types] => do
    closed sub f
    if isOptional then write "?."
    sub types
    callArguments sub args
  | .newExpr, [f, args, types] => do
    write "new "
    closed sub f
    sub types
    ifPresent args (callArguments sub args)
  | .sequence, ts => joined ", " (closed sub) ts
  | .paren, [e] => do
    write "("
    closed sub e
    write ")"
  | .template, ts => template sub false ts
  | .tagged, [f, types, .node .template _ ts] => do
    closed sub f
    sub types
    template sub true ts
  | .yieldExpr isDelegate, [e] => do
    write (if isDelegate then "yield*" else "yield")
    ifPresent e (keywordArgument sub e)
  | .await, [e] => do
    write "await "
    closed sub e
  | .asExpr, [e, t] => do
    closed sub e
    write " as "
    sub t
  | .constAssertion, [e] => do
    closed sub e
    write " as const"
  | .satisfiesExpr, [e, t] => do
    closed sub e
    write " satisfies "
    sub t
  | .typeAssertion, [e, t] => do
    write "<"
    sub t
    write ">"
    closed sub e
  | .nonNull, [e] => do
    closed sub e
    write "!"
  | .instantiation, [e, args] => do
    closed sub e
    sub args
  | .heritage, [e, args] => do
    closed sub e
    sub args
  | _, _ => return ()

/-! ### Elements -/

/-- An element or a part of one. -/
def element (sub : Phrases) (l : Label) (parts : List Tree) : Printer Unit :=
  match l, parts with
  | .element, [opening, children, closing] => do
    sub opening
    (members children).forM sub
    sub closing
  | .openingTag isSelfClosing, [x, attrs, types] => do
    write "<"
    sub x
    sub types
    (members attrs).forM fun a => do
      write " "
      sub a
    write (if isSelfClosing then "/>" else ">")
  | .closingTag, [x] => do
    write "</"
    sub x
    write ">"
  | .fragment, ts => do
    write "<>"
    ts.forM sub
    write "</>"
  | .elementAttr, [x, v] => do
    sub x
    ifPresent v do
      write "="
      sub v
  | .spreadAttr, [e] => do
    write "\x7b..."
    closed sub e
    write "\x7d"
  | .container, [e] => do
    write "\x7b"
    if e.isPresent then closed sub e else trailing e.span.stop true
    write "\x7d"
  | .spreadChild, [e] => do
    write "\x7b..."
    closed sub e
    write "\x7d"
  | .elementMember, [a, b] => do
    sub a
    write "."
    sub b
  | .namespacedName, [a, b] => do
    sub a
    write ":"
    sub b
  | _, _ => return ()

end Printer

end ContextHoist
