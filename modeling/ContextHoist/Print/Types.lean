/-
Printing types and the members of types.
-/
import ContextHoist.Print.Basic

namespace ContextHoist

namespace Printer

/-- A type after a colon, if it is there. -/
def typeMark (sub : Phrases) (t : Tree) : Printer Unit :=
  ifPresent t do
    write ": "
    sub t

/-- A word and a space, if the flag is set. -/
def flag (b : Bool) (w : String) : Printer Unit :=
  if b then write (w ++ " ") else return ()

/-- The sign of a modifier of a mapped type. -/
def sign (s : MappedSign) (w : String) : Printer Unit :=
  match s with
  | .absent => return ()
  | .present => write w
  | .plus => write ("+" ++ w)
  | .minus => write ("-" ++ w)

/-- Chunks and phrases of a template by turns. -/
def templateBody (sub : Phrases) (inner : Tree → Printer Unit) : List Tree → Printer Unit
  | [] => return ()
  | [c] => sub c
  | c :: e :: rest => do
    sub c
    write "$\x7b"
    inner e
    write "\x7d"
    templateBody sub inner rest

/-- Parameters in parentheses. -/
def signatureParameters (sub : Phrases) (ps : Tree) : Printer Unit := do
  write "("
  commaList (closed sub) (members ps)
  write ")"

/-- A type. -/
def type (sub : Phrases) (l : Label) (parts : List Tree) : Printer Unit :=
  match l, parts with
  | .typeMark, [t] => sub t
  | .typeArguments, ts => do
    write "<"
    commaList sub ts
    write ">"
  | .typeParameters, ts => do
    write "<"
    commaList sub ts
    write ">"
  | .typeParameter isIn isOut isConst, [x, bound, default] => do
    flag isConst "const"
    flag isIn "in"
    flag isOut "out"
    sub x
    ifPresent bound do
      write " extends "
      sub bound
    ifPresent default do
      write " = "
      sub default
  | .keywordType w, _ => write w
  | .thisType, _ => write "this"
  | .typeReference, [x, args] => do
    sub x
    sub args
  | .qualifiedName, [a, b] => do
    sub a
    write "."
    sub b
  | .typeQuery, [x, args] => do
    write "typeof "
    sub x
    sub args
  | .importType, [s, q, args] => do
    write "import("
    sub s
    write ")"
    ifPresent q do
      write "."
      sub q
    sub args
  | .typeLiteral, [] => write "\x7b\x7d"
  | .typeLiteral, ts => do
    write "\x7b"
    lines "" sub ts
    write "\x7d"
  | .arrayType, [t] => do
    sub t
    write "[]"
  | .tupleType, ts => do
    write "["
    commaList sub ts
    write "]"
  | .tupleElement, [x, t] => do
    ifPresent x do
      sub x
      write ": "
    sub t
  | .optionalType, [t] => do
    sub t
    write "?"
  | .restType, [t] => do
    write "..."
    sub t
  | .unionType, ts => joined " | " sub ts
  | .intersectionType, ts => joined " & " sub ts
  | .conditionalType, [t, bound, yes, no] => do
    sub t
    write " extends "
    sub bound
    write " ? "
    sub yes
    write " : "
    sub no
  | .inferType, [p] => do
    write "infer "
    sub p
  | .parenType, [t] => do
    write "("
    sub t
    write ")"
  | .typeOperator op, [t] => do
    write (op ++ " ")
    sub t
  | .indexedType isReadonly, [t, i] => do
    flag isReadonly "readonly"
    sub t
    write "["
    sub i
    write "]"
  | .mappedType ro opt, [.node _ _ (x :: bound :: _), nameType, t] => do
    write "\x7b"
    newline
    indented do
      sign ro "readonly"
      if ro != .absent then write " "
      write "["
      sub x
      write " in "
      sub bound
      ifPresent nameType do
        write " as "
        sub nameType
      write "]"
      sign opt "?"
      typeMark sub t
      write ";"
      newline
    write "\x7d"
  | .literalType, [t] => sub t
  | .templateType, ts => do
    write "\x60"
    templateBody sub sub ts
    write "\x60"
  | .functionType, [ps, tps, r] => do
    sub tps
    signatureParameters sub ps
    write " => "
    sub r
  | .constructorType isAbstract, [ps, tps, r] => do
    flag isAbstract "abstract"
    write "new"
    sub tps
    signatureParameters sub ps
    write " => "
    sub r
  | .typePredicate isAsserts, [x, t] => do
    flag isAsserts "asserts"
    sub x
    ifPresent t do
      write " is "
      sub t
  | _, _ => return ()

/-- A member of a type literal or of an interface, without the mark that ends it. -/
def typeMember (sub : Phrases) (l : Label) (parts : List Tree) : Printer Unit :=
  match l, parts with
  | .propertySignature isReadonly isOptional, [k, t] => do
    flag isReadonly "readonly"
    sub k
    if isOptional then write "?"
    typeMark sub t
  | .methodSignature isOptional, [k, ps, r, tps] => do
    sub k
    if isOptional then write "?"
    sub tps
    signatureParameters sub ps
    typeMark sub r
  | .getterSignature, [k, t] => do
    write "get "
    sub k
    write "()"
    typeMark sub t
  | .setterSignature, [k, p] => do
    write "set "
    sub k
    write "("
    closed sub p
    write ")"
  | .callSignature, [ps, r, tps] => do
    sub tps
    signatureParameters sub ps
    ifPresent r do
      write " : "
      sub r
  | .constructSignature, [ps, r, tps] => do
    write "new"
    sub tps
    signatureParameters sub ps
    typeMark sub r
  | .indexSignature isStatic isReadonly, [ps, t] => do
    flag isStatic "static"
    flag isReadonly "readonly"
    write "["
    commaList (closed sub) (members ps)
    write "]"
    typeMark sub t
  | _, _ => return ()

end Printer

end ContextHoist
