import Gemfile.Call
import Gemfile.Statement
import Gemfile.Token.Scan

/-!
# Statements read from tokens

* `Statement.ofTokens ts`   the statements that a file's tokens make up
* `Statement.parse cs`      the statements of a text

A block stands between `do` and `end`, or between braces if the arguments are in round brackets or
absent: behind arguments without brackets, an opening brace would start a hash.
-/

namespace Gemfile

open Token

namespace Statement

def reserved : List String := ["do", "end", "true", "false", "nil"]

def startsStatement (t : Token) : Bool := t.isKind .name && !reserved.contains t.spelling

def startsArgument (t : Token) : Bool :=
  match t.kind with
  | .string | .symbol | .number | .label | .words => true
  | .punct => t.is openList
  | .name => (keyword? t.text).isSome
  | _ => false

/-- the arguments behind the name of a statement, and whether round brackets stood there -/
def callOf (ts : List Token) : Except SyntaxFault (Call × Bool × List Token) :=
  match ts with
  | [] => .error exhausted
  | t :: rest =>
    if t.is openCall then do
      let (c, ts) ← Call.inBrackets rest
      return (c, true, ts)
    else if startsArgument t then do
      let (c, ts) ← Call.bare (t :: rest)
      return (c, false, ts)
    else return (Call.empty, false, t :: rest)

/-- the mark that ends the block whose opening comes next, if a block can start here -/
def blockEnd? (c : Call) (bracketed : Bool) (ts : List Token) : Option Mark :=
  if startsWith (word "do") ts then some (word "end")
  else if startsWith openBrace ts && (bracketed || decide (c = Call.empty)) then some closeBrace
  else none

/-- a token that may follow a statement in a block that ends with `closing` -/
def endsStatement (closing : Option Mark) (t : Token) : Bool :=
  t.isKind .newline || t.isKind .endOfFile || closing.any t.is

mutual

/-- the statements in front of the mark `closing`, or of the end of the file if there is none -/
def sequenceFrom : Nat → Option Mark → List Token → Except SyntaxFault (Parsed (List Statement))
  | 0, _, _ => .error exhausted
  | n + 1, closing, ts =>
    match skipNewlines ts with
    | [] => .error exhausted
    | t :: ts =>
      if closing.any t.is then .ok ([], t :: ts)
      else if t.isKind .endOfFile then
        match closing with
        | none => .ok ([], t :: ts)
        | some m => .error ⟨t.line, .missing m.text⟩
      else do
        let (s, ts) ← statementFrom n (t :: ts)
        match ts with
        | [] => .error exhausted
        | u :: us =>
          if endsStatement closing u then
            let (ss, ts) ← sequenceFrom n closing (u :: us)
            return (s :: ss, ts)
          else .error ⟨u.line, .unexpectedToken u.spelling⟩

def statementFrom : Nat → List Token → Except SyntaxFault (Parsed Statement)
  | 0, _ => .error exhausted
  | _ + 1, [] => .error exhausted
  | n + 1, t :: ts =>
    if startsStatement t then do
      let (c, bracketed, ts) ← callOf ts
      match blockEnd? c bracketed ts with
      | none => return (⟨t.spelling, c.args, c.options, none, t.line⟩, ts)
      | some m =>
        let (body, ts) ← sequenceFrom n (some m) (ts.drop 1)
        return (⟨t.spelling, c.args, c.options, some body, t.line⟩, ts.drop 1)
    else .error ⟨t.line, .expectedStatement t.spelling⟩

end

def ofTokens (ts : List Token) : Except SyntaxFault (List Statement) :=
  (sequenceFrom (readers ts) none ts).map Prod.fst

def parse (cs : List Char) : Except SyntaxFault (List Statement) := scan cs >>= ofTokens

end Statement

end Gemfile
