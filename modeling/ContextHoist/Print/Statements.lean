/-
Printing statements, declarations and whole modules.

* `Printer.phrase`: any phrase, given the printer for its inner phrases.
* `Printer.upTo`: phrases up to a nesting depth.
* `Module.print`: a module as text.
-/
import ContextHoist.Print.Expressions

namespace ContextHoist

namespace Printer

/-! ### Statements -/

/-- A variable declaration without its end. -/
def declarators (sub : Phrases) (kind : VarKind) (isDeclare : Bool) (ts : List Tree) :
    Printer Unit := do
  flag isDeclare "declare"
  write (kind.keyword ++ " ")
  commaList sub ts

/-- The head of a loop: a variable declaration without its end, or a pattern. -/
def loopHead (sub : Phrases) (t : Tree) : Printer Unit :=
  match t with
  | .node (.varDecl kind isDeclare) s ts => do
    leading s.start
    declarators sub kind isDeclare ts
  | _ => closed sub t

/-- A statement without what follows it on the line. -/
def statement (sub : Phrases) (l : Label) (s : Span) (parts : List Tree) : Printer Unit :=
  match l, parts with
  | .exprStmt, [e] => do
    let rs ← takeTrailing s.stop
    closed sub e
    write ";"
    remarks true rs
  | .emptyStmt, _ => write ";"
  | .debuggerStmt, _ => write "debugger;"
  | .withStmt, [e, b] => do
    write "with ("
    closed sub e
    write ")"
    sub b
  | .returnStmt, [e] => do
    write "return"
    ifPresent e (keywordArgument sub e)
    write ";"
  | .throwStmt, [e] => do
    write "throw"
    keywordArgument sub e
    write ";"
  | .labeled, [x, b] => do
    sub x
    write ": "
    sub b
  | .breakStmt, [x] => do
    write "break"
    ifPresent x do
      write " "
      sub x
    write ";"
  | .continueStmt, [x] => do
    write "continue"
    ifPresent x do
      write " "
      sub x
    write ";"
  | .ifStmt, [t, yes, no] => do
    write "if ("
    closed sub t
    write ") "
    sub yes
    ifPresent no do
      if yes.label == .block then write " "
      write "else "
      sub no
  | .switchStmt, e :: cs => do
    write "switch("
    closed sub e
    write ")\x7b"
    lines "" sub cs
    write "\x7d"
  | .caseClause, t :: ts => do
    if t.isPresent then
      write "case "
      closed sub t
    else write "default"
    write ":"
    unless ts.isEmpty do
      newline
      indented (eachLine "" sub ts)
  | .tryStmt, [b, c, f] => do
    write "try "
    sub b
    ifPresent c do
      write " "
      sub c
    ifPresent f do
      write " finally"
      sub f
  | .catchClause, [p, b] => do
    write "catch "
    ifPresent p do
      write "("
      closed sub p
      write ")"
    write " "
    sub b
  | .whileStmt, [t, b] => do
    write "while("
    closed sub t
    write ")"
    sub b
  | .doWhileStmt, [t, b] => do
    write "do "
    sub b
    write "while ("
    closed sub t
    write ")"
  | .forStmt, [i, t, u, b] => do
    write "for("
    ifPresent i (loopHead sub i)
    write ";"
    ifPresent t do
      write " "
      closed sub t
    write ";"
    ifPresent u do
      write " "
      closed sub u
    write ")"
    sub b
  | .forInStmt, [h, e, b] => do
    write "for("
    loopHead sub h
    write " in "
    closed sub e
    write ")"
    sub b
  | .forOfStmt isAwait, [h, e, b] => do
    write (if isAwait then "for await (" else "for (")
    loopHead sub h
    write " of "
    closed sub e
    write ")"
    sub b
  | _, _ => return ()

/-! ### Declarations -/

/-- A declaration, without what follows it on the line. -/
def declaration (sub : Phrases) (l : Label) (parts : List Tree) : Printer Unit :=
  match l, parts with
  | .varDecl kind isDeclare, ts => do
    declarators sub kind isDeclare ts
    write ";"
  | .classDecl isDeclare, [x, c] => do
    (classDecorators c).forM sub
    flag isDeclare "declare"
    classTail sub x c
  | .interfaceDecl isDeclare, [x, tps, exts, ms] => do
    flag isDeclare "declare"
    write "interface "
    sub x
    sub tps
    unless (members exts).isEmpty do
      write " extends "
      commaList sub (members exts)
    write " \x7b"
    lines "" sub (members ms)
    write "\x7d"
  | .typeAlias isDeclare, [x, tps, t] => do
    flag isDeclare "declare"
    write "type "
    sub x
    sub tps
    write " = "
    sub t
    write ";"
  | .enumDecl isDeclare isConst, x :: ms => do
    flag isDeclare "declare"
    flag isConst "const"
    write "enum "
    sub x
    write " \x7b"
    lines "," sub ms
    write "\x7d"
  | .enumMember, [x, v] => do
    sub x
    ifPresent v do
      write " = "
      closed sub v
  | .namespaceDecl isDeclare keyword, [x, b] => do
    flag isDeclare "declare"
    if keyword != "global" then write (keyword ++ " ")
    sub x
    if b.isPresent then sub b else write ";"
  | .nestedNamespace, [x, b] => do
    write "."
    sub x
    sub b
  | .moduleBlock, ts => do
    write " \x7b"
    lines "" sub ts
    write "\x7d"
  | .declarator _, [p, v] => do
    closed sub p
    ifPresent v do
      write " = "
      closed sub v
  | _, _ => return ()

/-! ### Module items -/

/-- Whether the specifier is written in braces. -/
def isNamed (t : Tree) : Bool :=
  match t.label with
  | .importNamed _ | .exportSpecifier _ => true
  | _ => false

/-- The specifiers of an import or an export: those without braces first. -/
def specifiers (sub : Phrases) (ts : List Tree) (endsInComma : Bool) : Printer Unit := do
  let (named, plain) := ts.partition isNamed
  joined ", " sub plain
  unless named.isEmpty do
    unless plain.isEmpty do write ", "
    write "\x7b "
    commaList sub named
    if endsInComma && (← get).keepsComments then write ", "
    write " \x7d"

/-- The source of an import or an export, its attributes, and the end of the declaration. -/
def source (sub : Phrases) (s a : Tree) : Printer Unit := do
  sub s
  ifPresent a do
    write " with "
    sub a
  write ";"

/-- A module declaration, without what follows it on the line. -/
def moduleDecl (sub : Phrases) (l : Label) (parts : List Tree) : Printer Unit :=
  match l, parts with
  | .importDecl isType endsInComma, [xs, s, a] => do
    write "import "
    flag isType "type"
    unless (members xs).isEmpty do
      specifiers sub (members xs) endsInComma
      write " from "
    source sub s a
  | .importDefault, [x] => sub x
  | .importNamespace, [x] => do
    write "* as "
    sub x
  | .importNamed isType, [x, y] => do
    flag isType "type"
    ifPresent y do
      sub y
      write " as "
    sub x
  | .exportDecl, [.node (.classDecl isDeclare) s [x, c]] => do
    (classDecorators c).forM sub
    write "export "
    leading s.start
    flag isDeclare "declare"
    classTail sub x c
  | .exportDecl, [t] => do
    write "export "
    sub t
  | .exportNamed isType endsInComma, [xs, s, a] => do
    write "export "
    flag isType "type"
    if (members xs).isEmpty then write "\x7b \x7d"
    else specifiers sub (members xs) endsInComma
    if s.isPresent then
      write " from "
      source sub s a
    else write ";"
  | .exportSpecifier isType, [x, y] => do
    flag isType "type"
    sub x
    ifPresent y do
      write " as "
      sub y
  | .exportNamespace, [x] => do
    write "* as "
    sub x
  | .exportDefaultName, [x] => sub x
  | .exportAll isType, [s, a] => do
    write "export "
    flag isType "type"
    write "* from "
    source sub s a
  | .exportDefaultDecl, [t] => do
    write "export default "
    sub t
  | .exportDefaultExpr, [e] => do
    write "export default "
    closed sub e
    write ";"
  | .importEquals isExport isType, [x, r] => do
    flag isExport "export"
    write "import "
    flag isType "type"
    sub x
    write " = "
    sub r
    write ";"
  | .requireRef, [s] => do
    write "require("
    sub s
    write ")"
  | .exportAssign, [e] => do
    write "export = "
    closed sub e
  | .exportAsNamespace, [x] => do
    write "export = "
    sub x
  | _, _ => return ()

/-! ### Phrases -/

/-- The ways of printing a phrase. -/
inductive Layout where
  | leaf (text : String)
  | block
  | expression
  | pattern
  | function
  | classMember
  | statement
  | clause
  | declaration
  | innerDeclaration
  | moduleDecl
  | specifier
  | type
  | typeMember
  | element
  | nothing

/-- How phrases with the label are printed. -/
def layout (l : Label) : Layout :=
  match leafText l with
  | some s => .leaf s
  | none =>
    match l with
    | .block => .block
    | .arrayPattern | .objectPattern | .restPattern | .defaultPattern | .keyValuePattern
    | .shorthandPattern | .annotated _ => .pattern
    | .functionExpr | .parameter | .parameterProperty _ | .arrow _ | .method | .getter
    | .setter => .function
    | .functionDecl _ => .declaration
    | .classMethod _ _ | .constructorMember _ | .field _ | .staticBlock | .emptyMember
    | .decorator => .classMember
    | .exprStmt | .emptyStmt | .debuggerStmt | .withStmt | .returnStmt | .throwStmt | .labeled
    | .breakStmt | .continueStmt | .ifStmt | .switchStmt | .tryStmt | .whileStmt | .doWhileStmt
    | .forStmt | .forInStmt | .forOfStmt _ => .statement
    | .caseClause | .catchClause => .clause
    | .varDecl _ _ | .classDecl _ | .interfaceDecl _ | .typeAlias _ | .enumDecl _ _
    | .namespaceDecl _ _ => .declaration
    | .enumMember | .nestedNamespace | .moduleBlock | .declarator _ => .innerDeclaration
    | .importDecl _ _ | .exportDecl | .exportNamed _ _ | .exportAll _ | .exportDefaultDecl
    | .exportDefaultExpr | .importEquals _ _ | .exportAssign | .exportAsNamespace => .moduleDecl
    | .importDefault | .importNamespace | .importNamed _ | .exportSpecifier _ | .exportNamespace
    | .exportDefaultName | .requireRef => .specifier
    | .typeMark | .typeArguments | .typeParameters | .typeParameter _ _ _ | .keywordType _
    | .thisType | .typeReference | .qualifiedName | .typeQuery | .importType | .typeLiteral
    | .arrayType | .tupleType | .tupleElement | .optionalType | .restType | .unionType
    | .intersectionType | .conditionalType | .inferType | .parenType | .typeOperator _
    | .indexedType _ | .mappedType _ _ | .literalType | .templateType | .functionType
    | .constructorType _ | .typePredicate _ => .type
    | .propertySignature _ _ | .methodSignature _ | .getterSignature | .setterSignature
    | .callSignature | .constructSignature | .indexSignature _ _ => .typeMember
    | .element | .openingTag _ | .closingTag | .fragment | .elementAttr | .spreadAttr
    | .container | .spreadChild | .elementMember | .namespacedName => .element
    | .absent | .group | .function _ _ | .classBody _ => .nothing
    | _ => .expression

/-- What follows a statement on its line: the comments that trail it, and the end of the
line. -/
def statementEnd (s : Span) : Printer Unit := do
  trailing s.stop true
  newline

/-- A declaration with or without the end of its line. -/
def declarationBody (sub : Phrases) (l : Label) (parts : List Tree) : Printer Unit :=
  match l with
  | .functionDecl _ => function sub l parts
  | _ => declaration sub l parts

/-- Whether a phrase prints the comments that lead it.  The two jumps do not. -/
def showsLeading : Label → Bool
  | .breakStmt | .continueStmt => false
  | _ => true

/-- Any phrase with the comments that lead it, given the printer for its inner phrases. -/
def phrase (sub : Phrases) (t : Tree) : Printer Unit := do
  match t with
  | .node l s ts =>
    if showsLeading l then leading s.start
    match layout l with
    | .leaf text => write text
    | .block => block sub s ts
    | .expression => expression sub l ts
    | .pattern => pattern sub l ts
    | .function => function sub l ts
    | .classMember => classMember sub l ts
    | .statement =>
      statement sub l s ts
      statementEnd s
    | .clause => statement sub l s ts
    | .declaration =>
      declarationBody sub l ts
      statementEnd s
    | .innerDeclaration => declaration sub l ts
    | .moduleDecl =>
      moduleDecl sub l ts
      statementEnd s
    | .specifier => moduleDecl sub l ts
    | .type => type sub l ts
    | .typeMember =>
      typeMember sub l ts
      write ";"
    | .element => element sub l ts
    | .nothing => return ()

/-- Phrases that are nested no deeper than the bound. -/
def upTo : Nat → Phrases
  | 0 => fun _ => return ()
  | n + 1 => fun t => phrase (upTo n) t

end Printer

mutual
/-- The number of nodes on the longest path from the root. -/
def Tree.depth : Tree → Nat
  | .node _ _ ts => maxDepth ts + 1
/-- The greatest depth among the trees. -/
def Tree.maxDepth : List Tree → Nat
  | [] => 0
  | t :: ts => max t.depth (maxDepth ts)
end

namespace Module

/-- The action that prints a module. -/
def printer (m : Module) : Printer Unit := do
  Printer.leading m.span.start
  match m.shebang with
  | some line =>
    Printer.write ("#!" ++ line)
    Printer.newline
  | none => pure ()
  m.items.forM fun t => do
    Printer.upTo (t.depth + 1) t
    Printer.trailing t.span.stop true
  Printer.trailing m.span.stop true

/-- The module as text, with the comments if there are any to keep. -/
def print (m : Module) (comments : Option Comments) : String :=
  let start : Output := ⟨"", true, 0, comments.getD .empty, comments.isSome⟩
  (m.printer.run start).2.text

end Module

end ContextHoist
