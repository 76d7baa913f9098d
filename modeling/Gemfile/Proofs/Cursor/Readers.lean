import Gemfile.Proofs.Cursor.Step
import Gemfile.Statement.OfTokens

/-!
# The readers of a file, step by step

Each reader looks at the token at hand, passes tokens and calls other readers; none of them knows how
many tokens there are.  Nested calls and turns of loops are bounded by a number, and `Stop.endless` is
the end of a run that needs more of them.

* `literal`                a token that is a value by itself, if it is one
* `value`, `items`, `entries`   a value, and the loops of lists and hashes
* `argument`, `argumentsFrom`, `arguments`   the arguments of a statement
* `statement`, `sequence`  a statement, and the loop of statements
* `program`                the statements of a whole file
-/

namespace Gemfile.Cursor
open Token

/-! ## marks -/

def isAt (m : Mark) : Step Bool := do
  let t ← look
  return t.is m

def isAtKind (k : Kind) : Step Bool := do
  let t ← look
  return t.isKind k

def pass : Step Unit := do
  let _ ← take
  return ()

/-- the fault `c` on the line of the token at hand -/
def fail {α : Type} (c : SyntaxCause) : Step α := do
  let t ← look
  fault t c

/-- passes the mark `m`, which has to come next -/
def want (m : Mark) : Step Unit := do
  if ← isAt m then pass
  else
    let t ← look
    fail (.expected m.text t.found)

/-- `x` with the mark `m` behind it -/
def upTo {α : Type} (m : Mark) (x : Step α) : Step α := do
  let v ← x
  want m
  return v

def newlines : Nat → Step Unit
  | 0 => stop .endless
  | n + 1 => do
    let start ← here
    if ← isAtKind .newline then
      pass
      turned .newlines start
      newlines n
    else return ()

/-- the end of a turn that began at `start`: past a comma and line breaks to `next`, else to `last` -/
def more {α : Type} (l : Loop) (start n : Nat) (next last : Step α) : Step α := do
  if ← isAt comma then
    pass
    newlines n
    turned l start
    next
  else
    turned l start
    last

/-! ## literals -/

def isDigits (cs : List Char) : Bool := !cs.isEmpty && cs.all Text.isDecimalDigit

/-- digits, or digits on both sides of a point -/
def isUnsigned (cs : List Char) : Bool :=
  isDigits (cs.takeWhile (· != '.')) &&
    match cs.dropWhile (· != '.') with
    | [] => true
    | _ :: fraction => isDigits fraction

def isNumeral : List Char → Bool
  | '-' :: cs => isUnsigned cs
  | cs => isUnsigned cs

def keywords : List String := ["true", "false", "nil"]

/-- a literal with its quotes, which stands in the token `t` -/
def quoted (t : Token) : List Char → Step Value
  | [] => stop .index
  | c :: r =>
    match unquote? (c :: r) with
    | some s => return .str (String.ofList s)
    | none => fault t .interpolation

def symbol (t : Token) : Step Value :=
  match t.text.drop 1 with
  | [] => stop .index
  | c :: r =>
    if c = '\x27' ∨ c = '"' then quoted t (c :: r) else return .str (String.ofList (c :: r))

def number (t : Token) : Step Value :=
  if isNumeral t.text then return numeralValue t.text else stop .numeral

def keyword (t : Token) : Step Value :=
  match keyword? t.text with
  | some v => return v
  | none => stop .lookup

/-- the value that the token `t` is by itself, if it is one -/
def literal (t : Token) : Step (Option Value) :=
  match t.kind with
  | .string => do
    let v ← quoted t t.text
    return some v
  | .symbol => do
    let v ← symbol t
    return some v
  | .number => do
    let v ← number t
    return some v
  | .words => return some (wordsValue t.text)
  | .name =>
    if keywords.contains t.spelling then do
      let v ← keyword t
      return some v
    else return none
  | _ => return none

/-! ## values -/

/-- the key that `v` is, read at the token `t` -/
def key (t : Token) (v : Value) : Step Value :=
  match v with
  | .str _ => return v
  | _ => fault t (.unsupportedKey t.spelling)

/-- `v` filed under `k` -/
def filed (k v : Value) (es : Options) : Step Options :=
  match k with
  | .str s => return Table.put s v es
  | _ => stop .key

/-- the key of an entry: a label, or a text with an arrow behind it -/
def entryKey (value : Step Value) : Step Value := do
  if ← isAtKind .label then
    let t ← take
    return .str t.labelName
  else
    let t ← look
    let v ← value
    let k ← key t v
    want arrowSign
    return k

/-- the work of the reader `r` behind a bracket, with at most `n` line breaks before `x` -/
def enclosed {α : Type} (r : Reader) (closing : Mark) (n : Nat) (x : Step α) : Step α := call r do
  newlines n
  upTo closing x

def array (n : Nat) (items : Step (List Value)) : Step Value := do
  let vs ← enclosed .array closeList n items
  return .list vs

def hash (n : Nat) (entries : Step Options) : Step Value := do
  let es ← enclosed .hash closeBrace n entries
  return .hash es

mutual

def value : Nat → Step Value
  | 0 => stop .endless
  | n + 1 => call .value do
    let t ← take
    match ← literal t with
    | some v => return v
    | none =>
      if t.is openList then array n (items n)
      else if t.is openBrace then hash n (entries n [])
      else fault t (.unsupportedExpression t.found)

def items : Nat → Step (List Value)
  | 0 => stop .endless
  | n + 1 => do
    let start ← here
    if ← isAt closeList then return []
    else
      let v ← value n
      newlines n
      let next : Step (List Value) := do
        let vs ← items n
        return v :: vs
      more .items start n next (return [v])

def entries : Nat → Options → Step Options
  | 0, _ => stop .endless
  | n + 1, es => do
    let start ← here
    if ← isAt closeBrace then return es
    else
      let k ← entryKey (value n)
      newlines n
      let v ← value n
      let es ← filed k v es
      newlines n
      more .entries start n (entries n es) (return es)

end

/-! ## arguments -/

def argument (n : Nat) (c : Call) : Step Call := call .argument do
  if ← isAtKind .label then
    let t ← take
    newlines n
    let v ← value n
    let es ← filed (.str t.labelName) v c.options
    return { c with options := es }
  else
    let t ← look
    let v ← value n
    if ← isAtKind .arrow then
      pass
      newlines n
      let w ← value n
      let k ← key t v
      let es ← filed k w c.options
      return { c with options := es }
    else if c.options.isEmpty then return c.withArg v
    else fault t .positionalAfterKeyword

/-- line breaks are passed in round brackets only -/
def newlinesIn (bracketed : Bool) (n : Nat) : Step Unit :=
  if bracketed then newlines n else return ()

def argumentsFrom (bracketed : Bool) : Nat → Call → Step Call
  | 0, _ => stop .endless
  | n + 1, c => do
    let start ← here
    let c ← argument n c
    newlinesIn bracketed n
    more .arguments start n (argumentsFrom bracketed n c) (return c)

/-- the arguments up to the mark `closing`, or without brackets if there is none -/
def arguments (n : Nat) (closing : Option Mark) : Step Call := call .arguments do
  match closing with
  | none =>
    let c ← argumentsFrom false n Call.empty
    return c.settle
  | some m =>
    newlines n
    if ← isAt m then
      pass
      return Call.empty
    else
      let c ← upTo m (argumentsFrom true n Call.empty)
      return c.settle

/-! ## statements -/

def atArgument : Step Bool := do
  let t ← look
  return Statement.startsArgument t

/-- the arguments behind the name of a statement, and whether round brackets stood there -/
def callOf (n : Nat) : Step (Call × Bool) := do
  if ← isAt openCall then
    pass
    let c ← arguments n (some closeCall)
    return (c, true)
  else if ← atArgument then
    let c ← arguments n none
    return (c, false)
  else return (Call.empty, false)

/-- the mark that ends the block whose opening comes next, if a block can start here -/
def blockEnd (c : Call) (bracketed : Bool) : Step (Option Mark) := do
  if ← isAt (word "do") then return some (word "end")
  else if ← isAt openBrace then
    return if bracketed || decide (c = Call.empty) then some closeBrace else none
  else return none

def isAtClosing : Option Mark → Step Bool
  | none => return false
  | some m => isAt m

/-- a token that may follow a statement in a block that ends with `closing` -/
def isAtEnd (closing : Option Mark) : Step Bool := do
  if ← isAtKind .newline then return true
  else if ← isAtKind .endOfFile then return true
  else isAtClosing closing

/-- no statement is left; no block ends with the file -/
def finished : Option Mark → Step (List Statement)
  | none => return []
  | some m => fail (.missing m.text)

mutual

def sequence : Nat → Option Mark → Step (List Statement)
  | 0, _ => stop .endless
  | n + 1, closing => do
    let start ← here
    newlines n
    if ← isAtClosing closing then return []
    else if ← isAtKind .endOfFile then finished closing
    else
      let s ← statement n
      if ← isAtEnd closing then
        turned .statements start
        let ss ← sequence n closing
        return s :: ss
      else
        let t ← look
        fail (.unexpectedToken t.spelling)

def statement : Nat → Step Statement
  | 0 => stop .endless
  | n + 1 => call .statement do
    let t ← look
    if Statement.startsStatement t then
      pass
      let (c, bracketed) ← callOf n
      match ← blockEnd c bracketed with
      | none => return ⟨t.spelling, c.args, c.options, none, t.line⟩
      | some m =>
        pass
        let body ← call .statements (sequence n (some m))
        pass
        return ⟨t.spelling, c.args, c.options, some body, t.line⟩
    else fail (.expectedStatement t.spelling)

end

/-- the statements of a file, with at most `n` nested calls and turns -/
def program (n : Nat) : Step (List Statement) := call .statements (sequence n none)

/-- the run over all tokens, with no reader at work yet -/
def parse (n : Nat) (ts : List Token) : Run (List Statement) := (program n).run ts [] 0

end Gemfile.Cursor
