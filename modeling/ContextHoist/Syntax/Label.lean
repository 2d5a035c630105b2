/-
Labels of syntax trees.

A program is a rose tree whose nodes carry a label and a span.  A label says what kind of
phrase the node is and keeps what the phrase writes besides its parts: names, literal text,
operators and flags.

* `Span`: the stretch of source text a node was read from.
* `Label`: the kinds of node, each with its parts in the order in which they are visited.
* `Label.isBoundary`: the labels of the phrases that have a scope of their own.
-/
namespace ContextHoist

/-- A stretch of source text: the positions of its first character and of the character after
its last one.  Positions count from one, so that zero means "nowhere". -/
structure Span where
  /-- The position of the first character. -/
  start : Nat
  /-- The position after the last character. -/
  stop : Nat
  deriving DecidableEq, Repr, Inhabited

namespace Span

/-- The span of a node that was not read from source text. -/
def nowhere : Span := ⟨0, 0⟩

end Span

/-- The keyword of a variable declaration. -/
inductive VarKind where
  | varKind
  | letKind
  | constKind
  | usingKind
  | awaitUsingKind
  deriving DecidableEq, Repr

namespace VarKind

/-- The keyword as it is written. -/
def keyword : VarKind → String
  | varKind => "var"
  | letKind => "let"
  | constKind => "const"
  | usingKind => "using"
  | awaitUsingKind => "await using"

end VarKind

/-- What a function of a class does: an ordinary method, or the reading or writing half of an
accessor. -/
inductive MethodKind where
  | method
  | getter
  | setter
  deriving DecidableEq, Repr

/-- The modifiers in front of a class member or a parameter property, and the marks after its
name. -/
structure Modifiers where
  isDeclare : Bool := false
  /-- `public`, `protected` or `private`, or empty. -/
  accessibility : String := ""
  isStatic : Bool := false
  isAbstract : Bool := false
  isOverride : Bool := false
  isReadonly : Bool := false
  /-- The field is written with the keyword `accessor`. -/
  isAccessor : Bool := false
  /-- A question mark follows the name. -/
  isOptional : Bool := false
  /-- An exclamation mark follows the name. -/
  isDefinite : Bool := false
  deriving DecidableEq, Repr

/-- The sign that a mapped type gives to a modifier: absent, present, or written with a plus or
a minus sign. -/
inductive MappedSign where
  | absent
  | present
  | plus
  | minus
  deriving DecidableEq, Repr

/-- The kinds of node.  The comment on each label lists the parts of the node; a part that may
be missing is then a node labelled `absent`, and a part called a *group* is a node labelled
`group` that holds any number of phrases. -/
inductive Label where
  /-- A part that is not there; also a hole of an array. -/
  | absent
  /-- Any number of phrases of one sort. -/
  | group
  /-- A name that refers to a variable, binds one, or stands for a label or a type. -/
  | name (text : String)
  /-- A name that is not a variable: a property key, or the name after a dot. -/
  | key (text : String)
  /-- A name of the private part of a class, without its number sign. -/
  | privateName (text : String)
  | thisExpr
  | superRef
  /-- The word `import` as a callee. -/
  | importRef
  /-- The meta properties `new.target` and `import.meta`. -/
  | metaProperty (text : String)
  /-- A number, as written. -/
  | number (raw : String)
  /-- A string with its quotes, as written. -/
  | string (raw : String)
  /-- Any other literal, as written. -/
  | literal (raw : String)
  /-- The text of a template between two substitutions, as written. -/
  | chunk (raw : String)
  -- expressions
  /-- Elements, spreads and holes. -/
  | array
  /-- Properties. -/
  | object
  /-- A property written as one name: that name. -/
  | shorthand
  /-- A property written as one name, with a value that is its default in a pattern: both. -/
  | shorthandDefault
  /-- Key and value. -/
  | keyValue
  /-- Key and function. -/
  | method
  /-- Key, type or `absent`, and body. -/
  | getter
  /-- Key, parameter and body. -/
  | setter
  /-- Expression. -/
  | spread
  /-- Expression: a key written in brackets. -/
  | computed
  /-- Name or `absent`, and function. -/
  | functionExpr
  /-- Group of parameters, group of decorators, body or `absent`, type parameters or `absent`,
  return type or `absent`. -/
  | function (isAsync isGenerator : Bool)
  /-- Group of decorators, and pattern. -/
  | parameter
  /-- Group of decorators, and pattern: a parameter that also declares a field. -/
  | parameterProperty (modifiers : Modifiers)
  /-- Group of patterns, body, type parameters or `absent`, return type or `absent`. -/
  | arrow (isAsync : Bool)
  /-- Name or `absent`, and class. -/
  | classExpr
  /-- Group of decorators, group of members, superclass or `absent`, type parameters or
  `absent`, type arguments of the superclass or `absent`, group of implemented types. -/
  | classBody (isAbstract : Bool)
  /-- Operand. -/
  | unary (operator : String)
  /-- Operand. -/
  | update (operator : String) (isPrefix : Bool)
  /-- Left and right operand. -/
  | binary (operator : String)
  /-- Target and value. -/
  | assign (operator : String)
  /-- Object and property, the latter a `key`, a `privateName` or `computed`. -/
  | member
  /-- Object and property, in an optional chain; the flag says whether this link is written
  with a question mark. -/
  | chainMember (isOptional : Bool)
  /-- The word `super`, and property. -/
  | superMember
  /-- Test and the two alternatives. -/
  | conditional
  /-- Callee, group of arguments, type arguments or `absent`. -/
  | call
  /-- Callee, group of arguments, type arguments or `absent`, in an optional chain. -/
  | chainCall (isOptional : Bool)
  /-- Callee, group of arguments or `absent`, type arguments or `absent`. -/
  | newExpr
  /-- Expressions. -/
  | sequence
  /-- Expression. -/
  | paren
  /-- Chunks and expressions by turns. -/
  | template
  /-- Tag, type arguments or `absent`, template. -/
  | tagged
  /-- Argument or `absent`. -/
  | yieldExpr (isDelegate : Bool)
  /-- Operand. -/
  | await
  -- patterns
  /-- Patterns and holes. -/
  | arrayPattern
  /-- Properties of a pattern. -/
  | objectPattern
  /-- Pattern, and type or `absent`. -/
  | restPattern
  /-- Pattern and default value. -/
  | defaultPattern
  /-- Key and pattern. -/
  | keyValuePattern
  /-- Name, and default value or `absent`. -/
  | shorthandPattern
  /-- Pattern, and type or `absent`. -/
  | annotated (isOptional : Bool)
  -- statements
  /-- Statements. -/
  | block
  /-- Expression. -/
  | exprStmt
  | emptyStmt
  | debuggerStmt
  /-- Object and body. -/
  | withStmt
  /-- Expression or `absent`. -/
  | returnStmt
  /-- Name and statement. -/
  | labeled
  /-- Name or `absent`. -/
  | breakStmt
  /-- Name or `absent`. -/
  | continueStmt
  /-- Test, consequence, alternative or `absent`. -/
  | ifStmt
  /-- Discriminant, then cases. -/
  | switchStmt
  /-- Test or `absent`, then statements. -/
  | caseClause
  /-- Expression. -/
  | throwStmt
  /-- Block, catch clause or `absent`, final block or `absent`. -/
  | tryStmt
  /-- Pattern or `absent`, and block. -/
  | catchClause
  /-- Test and body. -/
  | whileStmt
  /-- Test and body. -/
  | doWhileStmt
  /-- Initialiser, test and update, each or `absent`, and body. -/
  | forStmt
  /-- Head, object and body. -/
  | forInStmt
  /-- Head, object and body. -/
  | forOfStmt (isAwait : Bool)
  /-- Declarators. -/
  | varDecl (kind : VarKind) (isDeclare : Bool)
  /-- Pattern, and initial value or `absent`. -/
  | declarator (isDefinite : Bool)
  /-- Name and function. -/
  | functionDecl (isDeclare : Bool)
  /-- Name and class. -/
  | classDecl (isDeclare : Bool)
  -- class members
  /-- Key and function. -/
  | classMethod (kind : MethodKind) (modifiers : Modifiers)
  /-- Key, group of parameters, body or `absent`. -/
  | constructorMember (modifiers : Modifiers)
  /-- Key, value or `absent`, type or `absent`, group of decorators. -/
  | field (modifiers : Modifiers)
  /-- Block. -/
  | staticBlock
  | emptyMember
  /-- Expression. -/
  | decorator
  -- modules
  /-- Group of specifiers, source, attributes or `absent`.  The second flag says that the text
  of the declaration ends in a comma and one more character. -/
  | importDecl (isType endsInComma : Bool)
  /-- Local name. -/
  | importDefault
  /-- Local name. -/
  | importNamespace
  /-- Local name, and foreign name or `absent`. -/
  | importNamed (isType : Bool)
  /-- Declaration. -/
  | exportDecl
  /-- Group of specifiers, source or `absent`, attributes or `absent`.  The second flag says
  that the text of the declaration ends in a comma and one more character. -/
  | exportNamed (isType endsInComma : Bool)
  /-- Name, and foreign name or `absent`. -/
  | exportSpecifier (isType : Bool)
  /-- Foreign name. -/
  | exportNamespace
  /-- Name. -/
  | exportDefaultName
  /-- Source, attributes or `absent`. -/
  | exportAll (isType : Bool)
  /-- Function, class or interface. -/
  | exportDefaultDecl
  /-- Expression. -/
  | exportDefaultExpr
  /-- Name, and reference. -/
  | importEquals (isExport isType : Bool)
  /-- String. -/
  | requireRef
  /-- Expression. -/
  | exportAssign
  /-- Name. -/
  | exportAsNamespace
  -- types
  /-- Type, written after a colon. -/
  | typeMark
  /-- Types. -/
  | typeArguments
  /-- Type parameters. -/
  | typeParameters
  /-- Name, constraint or `absent`, default or `absent`. -/
  | typeParameter (isIn isOut isConst : Bool)
  /-- A type written as one keyword. -/
  | keywordType (text : String)
  | thisType
  /-- Name, type arguments or `absent`. -/
  | typeReference
  /-- Left part and `key`. -/
  | qualifiedName
  /-- Name, type arguments or `absent`. -/
  | typeQuery
  /-- String, qualifier or `absent`, type arguments or `absent`. -/
  | importType
  /-- Members. -/
  | typeLiteral
  /-- Type. -/
  | arrayType
  /-- Elements. -/
  | tupleType
  /-- Label or `absent`, and type. -/
  | tupleElement
  /-- Type. -/
  | optionalType
  /-- Type. -/
  | restType
  /-- Types. -/
  | unionType
  /-- Types. -/
  | intersectionType
  /-- Checked type, bound, and the two alternatives. -/
  | conditionalType
  /-- Type parameter. -/
  | inferType
  /-- Type. -/
  | parenType
  /-- Type. -/
  | typeOperator (operator : String)
  /-- Object and index. -/
  | indexedType (isReadonly : Bool)
  /-- Type parameter, name type or `absent`, type or `absent`. -/
  | mappedType (readonlySign optionalSign : MappedSign)
  /-- Literal or template. -/
  | literalType
  /-- Chunks and types by turns. -/
  | templateType
  /-- Group of parameters, type parameters or `absent`, result. -/
  | functionType
  /-- Group of parameters, type parameters or `absent`, result. -/
  | constructorType (isAbstract : Bool)
  /-- Name, and type or `absent`. -/
  | typePredicate (isAsserts : Bool)
  -- members of types
  /-- Key, and type or `absent`. -/
  | propertySignature (isReadonly isOptional : Bool)
  /-- Key, group of parameters, result or `absent`, type parameters or `absent`. -/
  | methodSignature (isOptional : Bool)
  /-- Key, and type or `absent`. -/
  | getterSignature
  /-- Key, and parameter. -/
  | setterSignature
  /-- Group of parameters, result or `absent`, type parameters or `absent`. -/
  | callSignature
  /-- Group of parameters, result or `absent`, type parameters or `absent`. -/
  | constructSignature
  /-- Group of parameters, and type or `absent`. -/
  | indexSignature (isStatic isReadonly : Bool)
  -- declarations of types
  /-- Name, type parameters or `absent`, group of extended types, group of members. -/
  | interfaceDecl (isDeclare : Bool)
  /-- Name, type parameters or `absent`, type. -/
  | typeAlias (isDeclare : Bool)
  /-- Name, then members. -/
  | enumDecl (isDeclare isConst : Bool)
  /-- Name or string, and value or `absent`. -/
  | enumMember
  /-- Name or string, and body or `absent`. -/
  | namespaceDecl (isDeclare : Bool) (keyword : String)
  /-- Name and body: the inner part of a dotted name. -/
  | nestedNamespace
  /-- Module items. -/
  | moduleBlock
  /-- Expression, type arguments or `absent`. -/
  | heritage
  -- expressions with types
  /-- Expression and type. -/
  | asExpr
  /-- Expression. -/
  | constAssertion
  /-- Expression and type. -/
  | satisfiesExpr
  /-- Expression and type. -/
  | typeAssertion
  /-- Expression. -/
  | nonNull
  /-- Expression and type arguments. -/
  | instantiation
  -- elements
  /-- Opening tag, group of children, closing tag or `absent`. -/
  | element
  /-- Name, group of attributes, type arguments or `absent`. -/
  | openingTag (isSelfClosing : Bool)
  /-- Name. -/
  | closingTag
  /-- Children. -/
  | fragment
  /-- Name, and value or `absent`. -/
  | elementAttr
  /-- Expression. -/
  | spreadAttr
  /-- Expression or `absent`, in braces. -/
  | container
  /-- Expression. -/
  | spreadChild
  /-- Text between tags, as written. -/
  | elementText (raw : String)
  /-- Object and `key`. -/
  | elementMember
  /-- Two `key`s. -/
  | namespacedName
  deriving DecidableEq, Repr, Inhabited

namespace Label

/-- The phrases with a scope of their own: functions, arrow functions, classes, and the
accessors of object literals with their keys. -/
def isBoundary : Label → Bool
  | function _ _ | arrow _ | classBody _ | getter | setter => true
  | _ => false

end Label

end ContextHoist
