/-
Statements, declarations of types, and module items.
-/
import ContextHoist.Parse.Expressions

namespace ContextHoist

namespace Parser

/-! ### Variables -/

/-- A declarator: a pattern with its type and its initial value. -/
def declarator (rules : Rules) : Parser Tree := do
  let start ← here
  let p ← rules .pattern
  let isDefinite ← (do
    if ← atBreak then return false else eatTyped "!")
  let p ← withType rules start false p
  let v ← (do
    if ← eat "=" then rules .assignment else return .absent)
  finish start (.declarator isDefinite) [p, v]

/-- The keyword of a variable declaration, if one starts here. -/
def variableKind : Parser (Option VarKind) := do
  let declares : Parser Bool := nextIs (do return (← isName) || (← isPunctOf ["[", "\x7b"]))
  let names : Parser Bool := nextIs (do return (← isName) && !(← atBreak) && !(← isWord "of"))
  if ← isWord "var" then return some .varKind
  else if ← isWord "const" then return some .constKind
  else if (← isWord "let") && (← declares) then return some .letKind
  else if (← hasTypes) && (← isWord "using") && (← names) then return some .usingKind
  else return none

/-- Whether the tree is an array or object pattern, with or without a type. -/
def isTakenApart : Tree → Bool
  | .node (.annotated _) _ (p :: _) => p.label == .arrayPattern || p.label == .objectPattern
  | p => p.label == .arrayPattern || p.label == .objectPattern

/-- Whether a declarator takes a value apart that it does not have. -/
def lacksValue : Tree → Bool
  | .node (.declarator _) _ [p, v] => isTakenApart p && !v.isPresent
  | _ => false

/-- A variable declaration without its end.  Patterns have initial values, except in front of the
word of a loop. -/
def declarators (rules : Rules) (kind : VarKind) (start : Nat) (isDeclare inLoop : Bool) :
    Parser Tree := do
  advance
  let ds ← separated "," (do
    if kind != .varKind && (← isWord "let") then reject
    let d ← declarator rules
    unless isDeclare || kind == .constKind || (inLoop && (← isWordOf ["of", "in"])) do
      if lacksValue d then reject
    return d)
  finish start (.varDecl kind isDeclare) ds

/-- A node again, now ending with the last token taken. -/
def extended (t : Tree) : Parser Tree := do
  return .node t.label ⟨t.span.start, (← get).last⟩ t.parts

/-- A variable declaration. -/
def variableStatement (rules : Rules) (kind : VarKind) (start : Nat) (isDeclare : Bool) :
    Parser Tree := do
  let t ← declarators rules kind start isDeclare false
  semicolon
  extended t

/-! ### Functions and classes -/

/-- A function declaration from the word `function` on. -/
def functionDeclaration (rules : Rules) (start : Nat) (isAsync isDeclare : Bool) :
    Parser Tree := do
  expectWord "function"
  let isGenerator ← eat "*"
  let x ← name
  let f ← functionRest rules start isAsync isGenerator []
  finish start (.functionDecl isDeclare) [x, f]

/-- A class declaration from the word `class` on. -/
def classDeclaration (rules : Rules) (start : Nat) (isAbstract isDeclare : Bool)
    (ds : List Tree) : Parser Tree := do
  let (x, c) ← classRest rules start isAbstract ds
  unless x.isPresent do reject
  finish start (.classDecl isDeclare) [x, c]

/-! ### Declarations of types -/

/-- An interface from its name on. -/
def interfaceRest (rules : Rules) (start : Nat) (isDeclare : Bool) : Parser Tree := do
  let x ← name
  let tps ← typeParameters rules
  let exts ← (do
    if ← eatWord "extends" then separated "," (heritage rules) else return [])
  expect "\x7b"
  let ms ← typeMembers rules
  finish start (.interfaceDecl isDeclare) [x, tps, .group exts, .group ms]

/-- A type alias from its name on. -/
def aliasRest (rules : Rules) (start : Nat) (isDeclare : Bool) : Parser Tree := do
  let x ← name
  let tps ← typeParameters rules
  expect "="
  let t ← rules .type
  semicolon
  finish start (.typeAlias isDeclare) [x, tps, t]

/-- A member of an enumeration. -/
def enumMember (rules : Rules) : Parser Tree := do
  let start ← here
  let k ← (do
    match ← propertyKey rules with
    | .node (.key x) s [] => return Tree.name x s
    | .node .computed _ [.node (.string raw) s []] => return .node (.string raw) s []
    | .node (.string raw) s [] => return .node (.string raw) s []
    | _ => reject)
  let v ← (do
    if ← eat "=" then rules .assignment else return .absent)
  finish start .enumMember [k, v]

/-- An enumeration from its name on. -/
def enumRest (rules : Rules) (start : Nat) (isDeclare isConst : Bool) : Parser Tree := do
  let x ← name
  expect "\x7b"
  let ms ← commaList "\x7d" (enumMember rules)
  finish start (.enumDecl isDeclare isConst) (x :: ms)

/-- The items of a namespace, in braces. -/
def moduleBlock (rules : Rules) : Parser Tree := do
  let start ← here
  expect "\x7b"
  let ts ← many (do
    if ← isPunct "\x7d" then return none
    return some (← rules .moduleItem))
  expect "\x7d"
  finish start .moduleBlock ts

/-- A namespace from its name on.  A name with dots gives one namespace in another. -/
def namespaceRest (rules : Rules) (start : Nat) (isDeclare : Bool) (keyword : String) :
    Parser Tree := do
  let x ← (do
    match ← peek with
    | .string _ => stringLiteral
    | _ => name)
  let inner ← many (do
    if ← eat "." then
      let at' ← here
      return some (at', ← name)
    else return none)
  let body ← (do
    if ← isPunct "\x7b" then moduleBlock rules
    else semicolon; return .absent)
  let body ← inner.foldrM (fun (p, y) b => finish p .nestedNamespace [y, b]) body
  finish start (.namespaceDecl isDeclare keyword) [x, body]

/-- A declaration that only a language with types has, if one starts here. -/
def typeDeclaration (rules : Rules) (start : Nat) (isDeclare : Bool) : Parser (Option Tree) := do
  unless ← hasTypes do return none
  let named : Parser Bool := nextIs (do return (← isName) && !(← atBreak))
  if (← isWord "interface") && (← named) then
    advance
    return some (← interfaceRest rules start isDeclare)
  else if (← isWord "type") && (← named) then
    advance
    return some (← aliasRest rules start isDeclare)
  else if (← isWord "enum") && (← named) then
    advance
    return some (← enumRest rules start isDeclare false)
  else if (← isWord "const") && (← nextIs (isWord "enum")) then
    advance
    advance
    return some (← enumRest rules start isDeclare true)
  else if (← isWord "namespace") && (← named) then
    advance
    return some (← namespaceRest rules start isDeclare "namespace")
  else if (← isWord "module") && (← nextIs (do
      match ← peek with
      | .string _ => return !(← atBreak)
      | _ => return (← isName) && !(← atBreak))) then
    advance
    return some (← namespaceRest rules start isDeclare "module")
  else if (← isWord "global") && (← nextIs (isPunct "\x7b")) then
    let inner ← here
    advance
    let x := Tree.name "global" ⟨inner, (← get).last⟩
    let b ← moduleBlock rules
    return some (← finish start (.namespaceDecl isDeclare "global") [x, b])
  else if (← isWord "abstract") && (← nextIs (do return (← isWord "class") && !(← atBreak))) then
    advance
    return some (← classDeclaration rules start true isDeclare [])
  else return none

/-- Whether the word `async` starts a function here. -/
def atAsyncFunction : Parser Bool := do
  return (← isWord "async") && (← nextIs (do return (← isWord "function") && !(← atBreak)))

/-- A declaration, if one starts here. -/
def declaration (rules : Rules) (start : Nat) (isDeclare : Bool) : Parser (Option Tree) := do
  match ← typeDeclaration rules start isDeclare with
  | some t => return some t
  | none =>
    match ← variableKind with
    | some kind => return some (← variableStatement rules kind start isDeclare)
    | none =>
      if ← isWord "function" then
        return some (← functionDeclaration rules start false isDeclare)
      else if ← atAsyncFunction then
        advance
        return some (← functionDeclaration rules start true isDeclare)
      else if ← isWord "class" then
        return some (← classDeclaration rules start false isDeclare [])
      else return none

/-- A declaration after the word `declare`, if one starts here. -/
def ambientDeclaration (rules : Rules) : Parser (Option Tree) := do
  unless ← hasTypes do return none
  unless ← isWord "declare" do return none
  if ← nextIs atBreak then return none
  let start ← here
  let tried ← attempt (do
    advance
    match ← declaration rules start true with
    | some t => return t
    | none => reject)
  return tried

/-! ### Statements -/

/-- An expression in parentheses after a keyword. -/
def parenHead (rules : Rules) : Parser Tree := do
  expect "("
  let e ← rules .expression
  expect ")"
  return e

/-- The statements in braces. -/
def block (rules : Rules) : Parser Tree := do
  let start ← here
  expect "\x7b"
  let ts ← many (do
    if ← isPunct "\x7d" then return none
    return some (← rules .statement))
  expect "\x7d"
  finish start .block ts

/-- The rest of a loop over a sequence or over keys, from its word on, if it is one. -/
def loopOver (rules : Rules) (start : Nat) (isAwait : Bool) (head : Tree) :
    Parser (Option Tree) := do
  let plain := fun (m : Mode) => { m with noIn := false }
  if ← eatWord "of" then
    let e ← inMode plain (rules .assignment)
    expect ")"
    let s ← inMode plain (rules .statement)
    return some (← finish start (.forOfStmt isAwait) [head, e, s])
  else if !isAwait && (← eatWord "in") then
    let e ← inMode plain (rules .expression)
    expect ")"
    let s ← inMode plain (rules .statement)
    return some (← finish start .forInStmt [head, e, s])
  else return none

/-- The rest of a loop with three clauses, from the first semicolon on. -/
def loopClauses (rules : Rules) (start : Nat) (init : Tree) : Parser Tree := do
  expect ";"
  let test ← (do
    if ← isPunct ";" then return .absent else rules .expression)
  expect ";"
  let update ← (do
    if ← isPunct ")" then return .absent else rules .expression)
  expect ")"
  let s ← rules .statement
  finish start .forStmt [init, test, update, s]

/-- What stands in front of the word of a loop: a declaration, or an expression as a target. -/
def loopTarget (head : Tree) : Parser Tree := do
  if ← isWordOf ["of", "in"] then
    match head.label with
    | .varDecl _ _ => return head
    | _ =>
      match head.toLoopTarget with
      | some p => return p
      | none => reject
  else return head

/-- A loop that starts with the word `for`. -/
def forStatement (rules : Rules) : Parser Tree := do
  let start ← here
  expectWord "for"
  let isAwait ← eatWord "await"
  expect "("
  if ← isPunct ";" then loopClauses rules start .absent
  else
    let inner ← here
    let head ← inMode (fun m => { m with noIn := true }) (do
      match ← variableKind with
      | some kind => declarators rules kind inner false true
      | none => rules .expression)
    let target ← loopTarget head
    match ← loopOver rules start isAwait target with
    | some t => return t
    | none => if isAwait then reject else loopClauses rules start head

/-- A clause of a switch statement. -/
def caseClause (rules : Rules) : Parser Tree := do
  let start ← here
  let test ← (do
    if ← eatWord "default" then return .absent
    else
      expectWord "case"
      rules .expression)
  expect ":"
  let ts ← many (do
    if (← isPunct "\x7d") || (← isWordOf ["case", "default"]) then return none
    return some (← rules .statement))
  finish start .caseClause (test :: ts)

/-- Whether the clause is the one for all other cases. -/
def isDefaultClause : Tree → Bool
  | .node .caseClause _ (test :: _) => !test.isPresent
  | _ => false

/-- A statement that starts with the word `try`. -/
def tryStatement (rules : Rules) : Parser Tree := do
  let start ← here
  expectWord "try"
  let b ← rules .block
  let inner ← here
  let handler ← (do
    if ← eatWord "catch" then
      let p ← (do
        if ← eat "(" then
          let at' ← here
          let p ← rules .pattern
          let p ← withType rules at' false p
          expect ")"
          return p
        else return .absent)
      let c ← rules .block
      finish inner .catchClause [p, c]
    else return .absent)
  let final ← (do
    if ← eatWord "finally" then rules .block else return .absent)
  finish start .tryStmt [b, handler, final]

/-- A jump to a label, or just a jump. -/
def jump (w : String) (l : Label) : Parser Tree := do
  let start ← here
  expectWord w
  let x ← (do
    if (← isName) && !(← atBreak) then name else return .absent)
  semicolon
  finish start l [x]

/-- Whether the statement ends here. -/
def atStatementEnd : Parser Bool := do
  return (← isPunctOf [";", "\x7d"]) || (← atBreak) || (← peek) == .eof

/-- An expression as a statement, or a statement with a label. -/
def expressionStatement (rules : Rules) : Parser Tree := do
  let start ← here
  if (← isName) && (← nextIs (isPunct ":")) then
    let x ← name
    advance
    let s ← rules .statement
    finish start .labeled [x, s]
  else
    let e ← rules .expression
    semicolon
    finish start .exprStmt [e]

/-- The statement that starts with the given keyword. -/
def keywordStatement (rules : Rules) (w : String) : Parser Tree := do
  let start ← here
  match w with
  | "if" =>
    advance
    let t ← parenHead rules
    let yes ← rules .statement
    let no ← (do
      if ← eatWord "else" then rules .statement else return .absent)
    finish start .ifStmt [t, yes, no]
  | "for" => forStatement rules
  | "while" =>
    advance
    let t ← parenHead rules
    let s ← rules .statement
    finish start .whileStmt [t, s]
  | "do" =>
    advance
    let s ← rules .statement
    expectWord "while"
    let t ← parenHead rules
    let _ ← eat ";"
    finish start .doWhileStmt [t, s]
  | "continue" => jump "continue" .continueStmt
  | "break" => jump "break" .breakStmt
  | "return" =>
    advance
    let e ← (do
      if ← atStatementEnd then return .absent else rules .expression)
    semicolon
    finish start .returnStmt [e]
  | "with" =>
    advance
    let e ← parenHead rules
    let s ← rules .statement
    finish start .withStmt [e, s]
  | "switch" =>
    advance
    let e ← parenHead rules
    expect "\x7b"
    let cs ← many (do
      if ← isPunct "\x7d" then return none
      return some (← caseClause rules))
    expect "\x7d"
    if (cs.filter isDefaultClause).length > 1 then reject
    finish start .switchStmt (e :: cs)
  | "throw" =>
    advance
    if ← atBreak then reject
    let e ← rules .expression
    semicolon
    finish start .throwStmt [e]
  | "try" => tryStatement rules
  | "debugger" =>
    advance
    semicolon
    finish start .debuggerStmt []
  | _ => expressionStatement rules

/-- A statement. -/
def statement (rules : Rules) : Parser Tree := do
  let start ← here
  match ← peek with
  | .punct "\x7b" => rules .block
  | .punct ";" =>
    advance
    finish start .emptyStmt []
  | .punct "@" =>
    let ds ← decorators rules
    if ds.isEmpty then reject
    let isAbstract ← eatWord "abstract"
    classDeclaration rules start isAbstract false ds
  | .word w false =>
    match ← ambientDeclaration rules with
    | some t => return t
    | none =>
      match ← declaration rules start false with
      | some t => return t
      | none => keywordStatement rules w
  | _ => expressionStatement rules

/-! ### Module items -/

/-- Whether the text that was read from `start` on, without its last character and the blanks
before it, ends in a comma. -/
def endsInComma (text : List Char) (start : Nat) : Parser Bool := do
  let c ← get
  let snippet := (text.take (c.last - start)).reverse
  match (snippet.tail.dropWhile fun ch => isBlank ch || isLineBreak ch) with
  | ch :: _ => return snippet.length ≥ 3 && ch == ','
  | [] => return false

/-- A name of another module: a word or a string. -/
def foreignName : Parser Tree := do
  match ← peek with
  | .string _ => stringLiteral
  | _ => keyName

/-- The attributes of an import, if they follow. -/
def importAttributes (rules : Rules) : Parser Tree := do
  if (← isWord "with") || ((← isWord "assert") && !(← atBreak)) then
    advance
    unless ← isPunct "\x7b" do reject
    rules .assignment
  else return .absent

/-- The word `type` in front of a specifier, if it is not the name itself. -/
def specifierIsType : Parser Bool := do
  if (← hasTypes) && (← isWord "type") && (← nextIs (do
      match ← peek with
      | .word w _ => return w != "as" || (← nextIs (do
          match ← peek with
          | .word v _ => return v == "as"
          | _ => return false))
      | .string _ => return true
      | _ => return false)) then
    advance
    return true
  else return false

/-- A specifier of a named import. -/
def importSpecifier : Parser Tree := do
  let start ← here
  let isType ← specifierIsType
  let couldBind ← isName
  let k ← foreignName
  if ← eatWord "as" then
    let x ← name
    finish start (.importNamed isType) [x, k]
  else
    match k with
    | .node (.key x) s [] =>
      unless couldBind do reject
      finish start (.importNamed isType) [.name x s, .absent]
    | _ => reject

/-- A specifier for the whole of a module. -/
def namespaceSpecifier (l : Label) (local' : Parser Tree) : Parser Tree := do
  let start ← here
  expect "*"
  expectWord "as"
  let x ← local'
  finish start l [x]

/-- The specifiers of an import behind the default one, or without one. -/
def laterSpecifiers : Parser (List Tree) := do
  if ← isPunct "*" then return [← namespaceSpecifier .importNamespace name]
  else if ← eat "\x7b" then commaList "\x7d" importSpecifier
  else reject

/-- The specifiers of an import. -/
def importSpecifiers : Parser (List Tree) := do
  if ← isName then
    let start ← here
    let x ← name
    let d ← finish start .importDefault [x]
    if ← eat "," then return d :: (← laterSpecifiers) else return [d]
  else laterSpecifiers

/-- The rest of an import that gives a name to a reference, from the name on. -/
def importEqualsRest (start : Nat) (isExport isType : Bool) : Parser Tree := do
  let x ← name
  expect "="
  let inner ← here
  let r ← (do
    if (← isWord "require") && (← nextIs (isPunct "(")) then
      advance
      expect "("
      let s ← stringLiteral
      expect ")"
      finish inner .requireRef [s]
    else entityName name)
  semicolon
  finish start (.importEquals isExport isType) [x, r]

/-- An import declaration. -/
def importDeclaration (rules : Rules) : Parser Tree := do
  let start ← here
  let text := (← get).here
  expectWord "import"
  match ← peek with
  | .string _ =>
    let s ← stringLiteral
    let a ← importAttributes rules
    semicolon
    finish start (.importDecl false (← endsInComma text start)) [.group [], s, a]
  | _ =>
    let isType ← (do
      if (← hasTypes) && (← isWord "type") && (← nextIs (do
          return (← isPunctOf ["\x7b", "*"]) ||
            ((← isName) && (!(← isWord "from") || (← nextIs (isWord "from")))))) then
        advance
        return true
      else return false)
    if (← hasTypes) && (← isName) && (← nextIs (isPunct "=")) then
      importEqualsRest start false isType
    else
      let xs ← importSpecifiers
      expectWord "from"
      let s ← stringLiteral
      let a ← importAttributes rules
      semicolon
      finish start (.importDecl isType (← endsInComma text start)) [.group xs, s, a]

/-- A specifier of a named export. -/
def exportSpecifier : Parser Tree := do
  let start ← here
  let isType ← specifierIsType
  let x := (← foreignName).keyToName
  let y ← (do
    if ← eatWord "as" then foreignName else return .absent)
  finish start (.exportSpecifier isType) [x, y]

/-- The source and the attributes of an export, and its end. -/
def exportSource (rules : Rules) : Parser (Tree × Tree) := do
  expectWord "from"
  let s ← stringLiteral
  let a ← importAttributes rules
  semicolon
  return (s, a)

/-- The rest of an export of names, from the opening brace on. -/
def exportNames (rules : Rules) (start : Nat) (text : List Char) (isType : Bool)
    (before : List Tree) : Parser Tree := do
  expect "\x7b"
  let xs ← commaList "\x7d" exportSpecifier
  let (s, a) ← (do
    if ← isWord "from" then exportSource rules
    else semicolon; return (Tree.absent, Tree.absent))
  finish start (.exportNamed isType (← endsInComma text start)) [.group (before ++ xs), s, a]

/-- What follows `export default`. -/
def exportDefault (rules : Rules) (start : Nat) (ds : List Tree) : Parser Tree := do
  let inner ← here
  let own ← decorators rules
  let ds := ds ++ own
  if ← isWord "class" then
    let (x, c) ← classRest rules inner false ds
    let e ← finish inner .classExpr [x, c]
    finish start .exportDefaultDecl [e]
  else if (← hasTypes) && (← isWord "abstract") && (← nextIs (isWord "class")) then
    advance
    let (x, c) ← classRest rules inner true ds
    let e ← finish inner .classExpr [x, c]
    finish start .exportDefaultDecl [e]
  else if ← isWord "function" then
    let f ← functionExpr rules inner false
    finish start .exportDefaultDecl [f]
  else if ← atAsyncFunction then
    advance
    let f ← functionExpr rules inner true
    finish start .exportDefaultDecl [f]
  else if (← hasTypes) && (← isWord "interface") && (← nextIs isName) then
    advance
    let t ← interfaceRest rules inner false
    finish start .exportDefaultDecl [t]
  else
    let e ← rules .assignment
    semicolon
    finish start .exportDefaultExpr [e]

/-- An export of everything, from the star on. -/
def exportStar (rules : Rules) (start : Nat) (text : List Char) (isType : Bool)
    (before : List Tree) : Parser Tree := do
  if ← nextIs (isWord "as") then
    let x ← namespaceSpecifier .exportNamespace foreignName
    let (s, a) ← exportSource rules
    finish start (.exportNamed isType (← endsInComma text start)) [.group (before ++ [x]), s, a]
  else
    unless before.isEmpty do reject
    expect "*"
    let (s, a) ← exportSource rules
    finish start (.exportAll isType) [s, a]

/-- An export declaration; `ds` are the decorators in front of it. -/
def exportDeclaration (rules : Rules) (outer : Nat) (ds : List Tree) : Parser Tree := do
  let start := outer
  let text := (← get).here
  expectWord "export"
  let isTyped ← hasTypes
  if ← isPunct "*" then exportStar rules start text false []
  else if ← isPunct "\x7b" then exportNames rules start text false []
  else if ← eatWord "default" then
    if !isTyped && (← isWord "from") && (← nextIs (do
        match ← peek with
        | .string _ => return true
        | _ => return false)) then
      let x := Tree.node .exportDefaultName Span.nowhere [.name "default" Span.nowhere]
      let (s, a) ← exportSource rules
      finish start (.exportNamed false (← endsInComma text start)) [.group [x], s, a]
    else exportDefault rules start ds
  else if isTyped && (← eat "=") then
    let e ← rules .expression
    semicolon
    finish start .exportAssign [e]
  else if isTyped && (← isWord "as") && (← nextIs (isWord "namespace")) then
    advance
    advance
    let x ← name
    semicolon
    finish start .exportAsNamespace [x]
  else if isTyped && (← isWord "import") then
    advance
    let isType ← (do
      if (← isWord "type") && (← nextIs isName) then advance; return true else return false)
    importEqualsRest start true isType
  else if isTyped && (← isWord "type") && (← nextIs (isPunct "\x7b")) then
    advance
    exportNames rules start text true []
  else if isTyped && (← isWord "type") && (← nextIs (isPunct "*")) then
    advance
    exportStar rules start text true []
  else
    let inner ← here
    let own ← decorators rules
    let ds := ds ++ own
    if ds.isEmpty then
      let d ← (do
        match ← ambientDeclaration rules with
        | some t => return some t
        | none => declaration rules inner false)
      match d with
      | some t => finish start .exportDecl [t]
      | none =>
        if !isTyped && (← isName) then
          let at' ← here
          let y ← name
          let x ← finish at' .exportDefaultName [y]
          if ← eat "," then
            if ← isPunct "*" then exportStar rules start text false [x]
            else exportNames rules start text false [x]
          else
            let (s, a) ← exportSource rules
            finish start (.exportNamed false (← endsInComma text start)) [.group [x], s, a]
        else reject
    else
      let isAbstract ← eatWord "abstract"
      let t ← classDeclaration rules inner isAbstract false ds
      finish start .exportDecl [t]

/-- A statement or a module declaration. -/
def moduleItem (rules : Rules) : Parser Tree := do
  let start ← here
  if ← isWord "export" then exportDeclaration rules start []
  else if (← isWord "import") && !(← nextIs (isPunctOf ["(", "."])) then importDeclaration rules
  else if (← isPunct "@") && (← hasTypes) then
    let exported ← attempt (do
      let ds ← decorators rules
      unless ← isWord "export" do reject
      exportDeclaration rules start ds)
    match exported with
    | some t => return t
    | none => rules .statement
  else rules .statement

end Parser

end ContextHoist
