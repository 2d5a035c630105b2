/-
Options from a text.

A text gives options as an object with named fields, or as an array of values in the order of
the fields.  A field that is not given keeps its default, a field that is not known is ignored,
and a field that is given twice is an error.

* `Options.ofDatum`: the options that a value of the notation stands for.
* `Options.ofText`: the options in a text; the pattern for file names must be one.
* `Options.load`: the options in a file.
-/
import ContextHoist.Options
import ContextHoist.Options.Datum

namespace ContextHoist

/-! ### Numbers -/

namespace Datum

/-- The whole number in the range of 64 bits that decimal digits with a sign write. -/
def decimalInt? (raw : String) : Option Int :=
  let (negative, ds) := match raw.toList with
    | '-' :: cs => (true, cs)
    | '+' :: cs => (false, cs)
    | cs => (false, cs)
  if ds.isEmpty || !ds.all Char.isDigit then none
  else
    let n : Nat := ds.foldl (fun n d => 10 * n + (d.toNat - 48)) 0
    let v : Int := if negative then -n else n
    if -0x8000000000000000 ≤ v && v < 0x8000000000000000 then some v else none

/-- Whether a number is written in hexadecimal digits. -/
def isHex (raw : String) : Bool :=
  match raw.toList with
  | '0' :: x :: _ :: _ => x == 'x' || x == 'X'
  | _ => false

/-- Whether a number is written as a whole number. -/
def isWhole (raw : String) : Bool :=
  let cs := raw.toList
  !cs.contains '.' && (isHex raw || (!cs.contains 'e' && !cs.contains 'E')) &&
    !cs.contains 'I' && !cs.contains 'N'

/-- What a number is called in a message, or what is wrong with it. -/
def numberNoun (raw : String) : Except String String :=
  if isWhole raw then
    if isHex raw then
      match hexNumber (raw.toList.drop 2) with
      | some n => if n < 0x100000000 then .ok s!"integer `{n}`" else .error "error parsing hex"
      | none => .error "error parsing hex"
    else
      match decimalInt? raw with
      | some v => .ok s!"integer `{v}`"
      | none => .error "error parsing integer"
  else if raw.toList.contains 'x' || raw.toList.contains 'X' then .error "error parsing number"
  else .ok s!"floating point `{raw}`"

/-- What a value is called in a message, or what is wrong with it. -/
def noun : Datum → Except String String
  | null => .ok "unit value"
  | bool b => .ok s!"boolean `{b}`"
  | number raw => numberNoun raw
  | string s => .ok ("string " ++ Path.quoted s)
  | badString reason => .error reason
  | array _ => .ok "sequence"
  | object _ => .ok "map"

/-- The message for a value of the wrong sort. -/
def mismatch {α : Type} (d : Datum) (expected : String) : Except String α := do
  throw ("invalid type: " ++ (← d.noun) ++ ", expected " ++ expected)

mutual

/-- Checks the numbers and strings of a value that nobody looks at. -/
def check : Datum → Except String Unit
  | array ds => checkAll ds
  | object fs => checkFields fs
  | d => do
    let _ ← d.noun
    return ()

/-- Checks the values of an array. -/
def checkAll : List Datum → Except String Unit
  | [] => .ok ()
  | d :: ds => do
    d.check
    checkAll ds

/-- Checks the keys and values of an object. -/
def checkFields : List (Datum × Datum) → Except String Unit
  | [] => .ok ()
  | (k, v) :: fs => do
    k.check
    v.check
    checkFields fs

end

/-! ### Fields -/

/-- The value as a truth value. -/
def asBool : Datum → Except String Bool
  | bool b => .ok b
  | d => d.mismatch "a boolean"

/-- The value as a text. -/
def asString : Datum → Except String String
  | string s => .ok s
  | d => d.mismatch "a string"

/-- The quote style with a name. -/
def styleNamed : Datum → Except String QuoteStyle
  | string s =>
    match QuoteStyle.ofName? s with
    | some style => .ok style
    | none => .error s!"unknown variant `{s}`, expected one of `single`, `double`, `preserve`"
  | d => d.mismatch "variant identifier"

/-- The value as a quote style: its name, or an object with its name and nothing for it. -/
def asStyle : Datum → Except String QuoteStyle
  | object ((k, v) :: _) => do
    let style ← styleNamed k
    match v with
    | null => return style
    | v => v.mismatch "unit"
  | object [] => .error "expected a nonempty object"
  | string s => styleNamed (string s)
  | badString reason => .error reason
  | _ => .error "expected a string or an object"

end Datum

/-! ### Options -/

namespace Options

/-- The fields of the options in their order. -/
inductive Field where
  | quote
  | dryRun
  | includes
  | preserveComments
  deriving DecidableEq, Repr, Inhabited

namespace Field

/-- All fields, in the order in which an array gives them. -/
def all : List Field := [quote, dryRun, includes, preserveComments]

/-- The name of a field in an object. -/
def name : Field → String
  | quote => "quote"
  | dryRun => "dryRun"
  | includes => "include"
  | preserveComments => "preserveComments"

/-- The field with a name. -/
def ofName? (x : String) : Option Field :=
  all.find? (·.name == x)

/-- The options with one field set. -/
def assign (f : Field) (d : Datum) (o : Options) : Except String Options := do
  match f with
  | quote => return { o with quote := ← d.asStyle }
  | dryRun => return { o with dryRun := ← d.asBool }
  | includes => return { o with includes := ← d.asString }
  | preserveComments => return { o with preserveComments := ← d.asBool }

end Field

/-- Sets the fields of an object one by one.  The list holds the fields that are set already. -/
def ofFields : List (Datum × Datum) → List Field → Options → Except String Options
  | [], _, o => .ok o
  | (k, v) :: rest, done, o => do
    let x ← k.asString
    match Field.ofName? x with
    | none =>
      v.check
      ofFields rest done o
    | some f =>
      if done.contains f then throw s!"duplicate field `{x}`"
      ofFields rest (f :: done) (← f.assign v o)

/-- Sets the fields in their order to the values of an array. -/
def ofItems : List Field → List Datum → Options → Except String Options
  | f :: fs, d :: ds, o => do ofItems fs ds (← f.assign d o)
  | _, _, o => .ok o

/-- The options that a value stands for. -/
def ofDatum : Datum → Except String Options
  | .object fs => ofFields fs [] {}
  | .array ds => ofItems Field.all ds {}
  | d => d.mismatch "struct CodemodOptions"

/-- The options in a text, which comes from the given path if that is not empty. -/
def ofTextAt (path text : String) : Except Failure Options := do
  let d ←
    match Datum.parse text with
    | .ok d => pure d
    | .error (line, column) => throw (.badOptions path s!" --> {line}:{column}")
  let o ←
    match ofDatum d with
    | .ok o => pure o
    | .error reason => throw (.badOptions path reason)
  let _ ← o.pattern
  return o

/-- The options in a text. -/
def ofText (text : String) : Except Failure Options :=
  ofTextAt "" text

/-- The options in a file. -/
def load (t : FileTree) (path : String) : Except Failure Options :=
  match t.read path with
  | .ok text => ofTextAt path text
  | .error cause => .error (.unreadableOptions path cause)

end Options

end ContextHoist
