/-
Tokens of source text.

* `Token`: words, punctuation and literals.
* `Remark`: a comment as it stands between two tokens.
* `Lexeme`: a token with its place and with the comments in front of it.
-/
import ContextHoist.Text.Chars

namespace ContextHoist

/-- The tokens.  Literals keep their text as written. -/
inductive Token where
  /-- An identifier or keyword, with its escapes decoded; the flag says whether it had any. -/
  | word (text : String) (isEscaped : Bool)
  /-- A private name, without its number sign. -/
  | privateName (text : String)
  | punct (text : String)
  | string (raw : String)
  | number (raw : String)
  | bigint (raw : String)
  | regex (raw : String)
  /-- A stretch of a template without its delimiters; the flag says whether it is the last. -/
  | chunk (raw : String) (isLast : Bool)
  /-- The text between two tags. -/
  | elementText (raw : String)
  | eof
  /-- Text that is no token. -/
  | invalid
  deriving DecidableEq, Repr, Inhabited

/-- A comment, and what the choice of its place depends on. -/
structure Remark where
  /-- Whether the comment is written between `/*` and `*/`. -/
  isBlock : Bool
  /-- The text without its delimiters. -/
  text : String
  /-- A line ends between the token in front of the comment and the comment. -/
  afterBreak : Bool
  /-- The character right after the comment is a semicolon. -/
  beforeSemicolon : Bool
  deriving DecidableEq, Repr, Inhabited

/-- A token in its place. -/
structure Lexeme where
  token : Token
  /-- The position of the first character. -/
  start : Nat
  /-- The position after the last character. -/
  stop : Nat
  /-- A line ends between the token in front and this one. -/
  afterBreak : Bool
  /-- The comments between the token in front and this one. -/
  remarks : List Remark
  deriving Repr, Inhabited

namespace Token

/-- The words that cannot name a variable. -/
def keywords : List String :=
  ["break", "case", "catch", "class", "const", "continue", "debugger", "default", "delete", "do",
    "else", "export", "extends", "finally", "for", "function", "if", "import", "in",
    "instanceof", "new", "return", "super", "switch", "throw", "try", "typeof", "var", "void",
    "while", "with", "this", "null", "true", "false", "enum", "await"]

/-- The words that may name a variable where it is declared, but not where it is used. -/
def declarableOnly : List String :=
  ["implements", "interface", "package", "private", "protected", "public", "yield"]

/-- The words after which a block comment belongs to what follows. -/
def isReservedForComments (w : String) : Bool :=
  keywords.contains w || ["let", "yield", "module"].contains w

/-- The punctuation that joins two operands. -/
def operators : List String :=
  ["+", "-", "*", "/", "%", "<", ">", "|", "^", "&", "==", "!=", "===", "!==", "<=", ">=", "<<",
    ">>", ">>>", "&&", "||", "??", "**"]

/-- Whether a line comment after the token belongs to what follows. -/
def isOperator : Token → Bool
  | punct p => operators.contains p
  | _ => false

/-- Whether a block comment after the token on the same line belongs to the token. -/
def holdsBlockComments : Token → Bool
  | punct p => p == ";" || p == "\x7b" || p == "\x7d"
  | number _ | string _ | regex _ | bigint _ => true
  | word w _ => !isReservedForComments w
  | _ => false

end Token

end ContextHoist
