/-
Elements written as tags.

The text between tags is not made of tokens.  `Parser.enterText` therefore takes the mark that
ends a tag or a container and reads on in raw text.
-/
import ContextHoist.Parse.Types

namespace ContextHoist

namespace Parser

/-- Takes the current token and reads the raw text after it, up to the next tag or container. -/
def enterText : Parser Unit :=
  modify fun c =>
    let stop := c.current.stop
    let text := c.after.takeWhile fun ch => ch != '<' && ch != '\x7b'
    if text.isEmpty then
      let (next, here, after) := Lexeme.next stop c.after
      { c with
        current := next, here := here, after := after, last := stop
        taken := c.current :: c.taken }
    else
      { c with
        current := ⟨.elementText (String.ofList text), stop, stop + text.length, false, []⟩
        here := c.after, after := c.after.drop text.length, last := stop
        taken := c.current :: c.taken }

/-- A word that may hold hyphens. -/
def elementWord : Parser (String × Span) := do
  let c ← get
  let text := c.here.takeWhile fun ch => isWordPart ch || ch == '-'
  match text with
  | ch :: _ =>
    unless isWordStart ch do reject
    let start ← here
    retake (.word (String.ofList text) false) text.length (c.here.drop text.length)
    advance
    return (String.ofList text, ← spanFrom start)
  | [] => reject

/-- The name of a tag: one word, words with dots, or two words with a colon. -/
def elementName : Parser Tree := do
  let start ← here
  let (w, s) ← elementWord
  if ← eat ":" then
    let (v, s') ← elementWord
    finish start .namespacedName [.key w s, .key v s']
  else
    iterate (fun (left : Tree) => do
      if ← eat "." then
        let (v, s') ← elementWord
        return some (← finish start .elementMember [left, .key v s'])
      else return none) (.name w s)

/-- The string that is the value of an attribute: it has no escapes and may hold line breaks. -/
def attributeString : Parser Tree := do
  let c ← get
  let start ← here
  match c.here with
  | q :: rest =>
    unless q == '"' || q == '\'' do reject
    let body := rest.takeWhile (· != q)
    let raw := String.ofList (q :: body ++ [q])
    match rest.drop body.length with
    | _ :: after =>
      retake (.string raw) (body.length + 2) after
      advance
      finish start (.string raw) []
    | [] => reject
  | [] => reject

/-- An expression in braces, or empty braces; `leave` takes the closing brace. -/
def container (rules : Rules) (leave : Parser Unit) : Parser Tree := do
  let start ← here
  expect "\x7b"
  if ← isPunct "\x7d" then
    let stop := (← get).current.stop
    leave
    return .node .container ⟨start, stop⟩ [.node .absent ⟨start + 1, start + 1⟩ []]
  else if ← eat "..." then
    let e ← rules .expression
    let stop := (← get).current.stop
    unless ← isPunct "\x7d" do reject
    leave
    return .node .spreadChild ⟨start, stop⟩ [e]
  else
    let e ← rules .expression
    let stop := (← get).current.stop
    unless ← isPunct "\x7d" do reject
    leave
    return .node .container ⟨start, stop⟩ [e]

/-- An attribute of a tag. -/
def tagAttribute (rules : Rules) : Parser Tree := do
  let start ← here
  if ← isPunct "\x7b" then
    advance
    expect "..."
    let e ← rules .assignment
    expect "\x7d"
    finish start .spreadAttr [e]
  else
    let (w, s) ← elementWord
    let k ← (do
      if ← eat ":" then
        let (v, s') ← elementWord
        finish start .namespacedName [.key w s, .key v s']
      else return Tree.key w s)
    if ← isPunct "=" then
      advance
      let v ← (do
        match ← peek with
        | .punct "\x7b" => container rules advance
        | .punct "<" => do
          let e ← rules .element
          advance
          return e
        | _ => attributeString)
      finish start .elementAttr [k, v]
    else finish start .elementAttr [k, .absent]

/-- Whether the tree names the same tag as the other. -/
def sameName (a b : Tree) : Bool :=
  match a.label, b.label with
  | .name x, .name y => x == y
  | .namespacedName, .namespacedName => true
  | .elementMember, .elementMember => true
  | _, _ => false

/-- The children of an element, after the mark that ended the opening tag was taken, up to the
closing tag, whose name is returned; its last mark is left. -/
def children (rules : Rules) : Parser (List Tree × Tree × Nat) := do
  let ts ← many (do
    match ← peek with
    | .elementText raw =>
      let start ← here
      advance
      return some (← finish start (.elementText raw) [])
    | .punct "\x7b" => return some (← container rules enterText)
    | .punct "<" =>
      if ← nextIs (isPunct "/") then return none
      let e ← rules .element
      enterText
      return some e
    | _ => reject)
  let start ← here
  expect "<"
  expect "/"
  let closing ← (do
    if ← isPunct ">" then return Tree.absent else elementName)
  unless ← isPunct ">" do reject
  return (ts, closing, start)

/-- An element.  Its last mark is left as the current token, so that the caller decides how to
read on. -/
def element (rules : Rules) : Parser Tree := do
  let start ← here
  let closeSpan : Parser Nat := do return (← get).current.stop
  expect "<"
  if ← isPunct ">" then
    enterText
    let (ts, closing, _) ← children rules
    if closing.isPresent then reject
    return .node .fragment ⟨start, ← closeSpan⟩ ts
  else
    let x ← elementName
    let args ← (do
      if ← hasTypes then optionalTypeArguments rules else return .absent)
    let attrs ← many (do
      if ← isPunctOf ["/", ">"] then return none
      return some (← tagAttribute rules))
    if ← eat "/" then
      unless ← isPunct ">" do reject
      let stop ← closeSpan
      let tag := Tree.node (.openingTag true) ⟨start, stop⟩ [x, .group attrs, args]
      return .node .element ⟨start, stop⟩ [tag, .group [], .absent]
    else
      unless ← isPunct ">" do reject
      let tag := Tree.node (.openingTag false) ⟨start, ← closeSpan⟩ [x, .group attrs, args]
      enterText
      let (ts, closing, closeStart) ← children rules
      unless sameName x closing do reject
      let stop ← closeSpan
      let close := Tree.node .closingTag ⟨closeStart, stop⟩ [closing]
      return .node .element ⟨start, stop⟩ [tag, .group ts, close]

end Parser

end ContextHoist
