/-!
# Tokens

* `Token.Kind`   the kinds of lexeme, and the end of the file
* `Token`        a lexeme with its kind and the line it starts on
* `Token.is`     a token of a given kind and spelling

Gaps and comments are lexemes that no token stands for.
-/

namespace Gemfile

inductive Token.Kind where
  | newline
  | gap
  | comment
  | arrow
  | words
  | label
  | symbol
  | string
  | number
  | name
  | punct
  | endOfFile
deriving DecidableEq

/-- the part of the text that one token is read from -/
structure Lexeme where
  kind : Token.Kind
  text : List Char
deriving DecidableEq

structure Token where
  kind : Token.Kind
  text : List Char
  line : Nat
deriving DecidableEq

namespace Token

def Kind.isToken : Kind → Bool
  | .gap => false
  | .comment => false
  | _ => true

/-- the mark of a kind together with a spelling -/
structure Mark where
  kind : Kind
  text : String
deriving DecidableEq

def is (t : Token) (m : Mark) : Bool := decide (t.kind = m.kind) && decide (t.text = m.text.toList)

def isKind (t : Token) (k : Kind) : Bool := decide (t.kind = k)

def punct (s : String) : Mark := ⟨.punct, s⟩

def word (s : String) : Mark := ⟨.name, s⟩

def spelling (t : Token) : String := String.ofList t.text

/-- the end of a file whose last line is `line` -/
def endOfFile (line : Nat) : Token := ⟨.endOfFile, [], line⟩

end Token

end Gemfile
