import Gemfile.SyntaxFault
import Gemfile.Token.Literal

/-!
# Values read from tokens

A reader takes the tokens that are left and returns what it read with the tokens that are left
then.  The tokens of a file end with its end, which no reader goes past: one that finds no token at
all reports `exhausted`.

* `Value.ofTokens ts`   the value that `ts` starts with
* `valueFrom`, `itemsFrom`, `entriesFrom`   the same for values nested in at most so many readers
-/

namespace Gemfile

/-- what was read, and the tokens that are left -/
abbrev Parsed (α : Type) := α × List Token

def exhausted : SyntaxFault := ⟨0, .exhausted⟩

namespace Token

def openList : Mark := punct "["
def closeList : Mark := punct "]"
def openBrace : Mark := punct "\x7b"
def closeBrace : Mark := punct "\x7d"
def openCall : Mark := punct "("
def closeCall : Mark := punct ")"
def comma : Mark := punct ","
def arrowSign : Mark := ⟨.arrow, "=>"⟩

def startsWith (m : Mark) : List Token → Bool
  | [] => false
  | t :: _ => t.is m

def skipNewlines (ts : List Token) : List Token := ts.dropWhile (·.isKind .newline)

def found (t : Token) : Option String := if t.isKind .endOfFile then none else some t.spelling

/-- the tokens behind the mark `m`, which has to come next -/
def expect (m : Mark) : List Token → Except SyntaxFault (List Token)
  | [] => .error exhausted
  | t :: ts => if t.is m then .ok ts else .error ⟨t.line, .expected m.text t.found⟩

end Token

open Token

/-- the text that a key is, read at the token `t` -/
def keyOf (t : Token) : Value → Except SyntaxFault String
  | .str s => .ok s
  | _ => .error ⟨t.line, .unsupportedKey t.spelling⟩

/-- the key of an entry whose first token is `t`: a label, or a text with an arrow behind it -/
def entryKey (readValue : List Token → Except SyntaxFault (Parsed Value)) (t : Token)
    (ts : List Token) : Except SyntaxFault (Parsed String) :=
  if t.isKind .label then return (t.labelName, ts)
  else do
    let (v, ts) ← readValue (t :: ts)
    let k ← keyOf t v
    let ts ← expect arrowSign ts
    return (k, ts)

mutual

def valueFrom : Nat → List Token → Except SyntaxFault (Parsed Value)
  | 0, _ => .error exhausted
  | _ + 1, [] => .error exhausted
  | n + 1, t :: ts =>
    match t.reading with
    | .value v => .ok (v, ts)
    | .interpolated => .error ⟨t.line, .interpolation⟩
    | .other =>
      if t.is openList then do
        let (items, ts) ← itemsFrom n (skipNewlines ts)
        return (.list items, ts)
      else if t.is openBrace then do
        let (entries, ts) ← entriesFrom n [] (skipNewlines ts)
        return (.hash entries, ts)
      else .error ⟨t.line, .unsupportedExpression t.found⟩

def itemsFrom : Nat → List Token → Except SyntaxFault (Parsed (List Value))
  | 0, _ => .error exhausted
  | n + 1, ts =>
    if startsWith closeList ts then .ok ([], ts.drop 1)
    else do
      let (v, ts) ← valueFrom n ts
      let ts := skipNewlines ts
      if startsWith comma ts then
        let (vs, ts) ← itemsFrom n (skipNewlines (ts.drop 1))
        return (v :: vs, ts)
      else
        let ts ← expect closeList ts
        return ([v], ts)

/-- the entries up to the end of a hash, filed behind the entries `es` -/
def entriesFrom : Nat → Options → List Token → Except SyntaxFault (Parsed Options)
  | 0, _, _ => .error exhausted
  | _ + 1, _, [] => .error exhausted
  | n + 1, es, t :: ts =>
    if t.is closeBrace then .ok (es, ts)
    else do
      let (k, ts) ← entryKey (valueFrom n) t ts
      let (v, ts) ← valueFrom n (skipNewlines ts)
      let es := Table.put k v es
      let ts := skipNewlines ts
      if startsWith comma ts then entriesFrom n es (skipNewlines (ts.drop 1))
      else
        let ts ← expect closeBrace ts
        return (es, ts)

end

/-- each nested reader and each further item takes a token, or is called for an item that does, so
twice as many readers as there are tokens are enough -/
def readers (ts : List Token) : Nat := 2 * ts.length + 2

def Value.ofTokens (ts : List Token) : Except SyntaxFault (Parsed Value) :=
  valueFrom (readers ts) ts

end Gemfile
