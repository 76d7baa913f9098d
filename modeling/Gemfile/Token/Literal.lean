import Gemfile.Text.Blank
import Gemfile.Text.DecimalDigit
import Gemfile.Token
import Gemfile.Value

/-!
# What literals stand for

* `unescapeSingle cs`   the text between single quotes: a backslash hides a backslash or a quote
* `unescapeDouble cs`   the text between double quotes: a backslash and a character are one
                        character
* `interpolates cs`     a hash sign and an opening brace stand side by side behind an even number of
                        backslashes
* `unquote? cs`         what a literal with its quotes stands for, and `none` if it interpolates
* `numeralValue cs`     the number that a literal writes
-/

namespace Gemfile.Token

def unescapeSingle : List Char → List Char
  | [] => []
  | [c] => [c]
  | c :: d :: r =>
    if c = '\\' ∧ (d = '\\' ∨ d = '\x27') then d :: unescapeSingle r
    else c :: unescapeSingle (d :: r)

/-- the letters that stand for another character behind a backslash -/
def escapes : List (Char × Char) :=
  [('n', '\n'), ('t', '\t'), ('r', '\r'), ('s', ' '), ('0', '\x00'), ('e', '\x1b')]

def escaped (c : Char) : Char := (escapes.lookup c).getD c

def unescapeDouble : List Char → List Char
  | [] => []
  | [c] => [c]
  | c :: d :: r =>
    if c = '\\' then escaped d :: unescapeDouble r
    else c :: unescapeDouble (d :: r)

/-- `odd` tells whether an odd number of backslashes stands right before the text -/
def interpolatesFrom (odd : Bool) : List Char → Bool
  | [] => false
  | '\\' :: r => interpolatesFrom (!odd) r
  | '#' :: r => (!odd && r.head? == some '\x7b') || interpolatesFrom false r
  | _ :: r => interpolatesFrom false r

def interpolates (cs : List Char) : Bool := interpolatesFrom false cs

def unquote? : List Char → Option (List Char)
  | [] => some []
  | q :: r =>
    let body := r.dropLast
    if q = '\x27' then some (unescapeSingle body)
    else if interpolates body then none
    else some (unescapeDouble body)

/-- digits, or digits on both sides of a point -/
def unsignedValue (negative : Bool) (cs : List Char) : Value :=
  let whole := cs.takeWhile (· != '.')
  match cs.dropWhile (· != '.') with
  | [] => .int (if negative then -(Text.numeral whole : Int) else Text.numeral whole)
  | _ :: fraction =>
    .float (Binary64.ofDecimal negative (Text.numeral (whole ++ fraction))
      (-(fraction.length : Int)))

def numeralValue : List Char → Value
  | '-' :: cs => unsignedValue true cs
  | cs => unsignedValue false cs

/-- the words of a list of words, which stands between three characters and one -/
def wordsValue (cs : List Char) : Value :=
  .list ((Text.words (cs.drop 3).dropLast).map fun w => .str (String.ofList w))

def keyword? (cs : List Char) : Option Value :=
  if cs = "true".toList then some (.bool true)
  else if cs = "false".toList then some (.bool false)
  else if cs = "nil".toList then some .nil
  else none

/-- what a token that is a value by itself stands for -/
inductive Reading where
  | value (v : Value)
  | interpolated
  | other
deriving DecidableEq

def quotedReading (cs : List Char) : Reading :=
  match unquote? cs with
  | some s => .value (.str (String.ofList s))
  | none => .interpolated

def reading (t : Token) : Reading :=
  match t.kind with
  | .string => quotedReading t.text
  | .symbol =>
    match t.text.drop 1 with
    | [] => .value (.str "")
    | c :: r =>
      if c = '\x27' ∨ c = '"' then quotedReading (c :: r)
      else .value (.str (String.ofList (c :: r)))
  | .number => .value (numeralValue t.text)
  | .words => .value (wordsValue t.text)
  | .name =>
    match keyword? t.text with
    | some v => .value v
    | none => .other
  | _ => .other

def labelName (t : Token) : String := String.ofList t.text.dropLast

theorem unescapeSingle_nil : unescapeSingle [] = [] := by rw [unescapeSingle]
theorem unescapeDouble_nil : unescapeDouble [] = [] := by rw [unescapeDouble]

end Gemfile.Token
