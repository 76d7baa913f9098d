import Gemfile.Graph
import Gemfile.Token.Lexeme

/-!
# The text of a graph

* `Dot.identifier s`   `s` as the DOT language writes it: as it is if it is a plain name, a number
                       or enclosed in angle brackets, and in quotes otherwise
* `Dot.line i`         a node or an edge on a line of its own
* `State.dot`          the text of the graph of a state, with a comment that names the file
-/

namespace Gemfile.Dot

/-- the names that are part of the language -/
def keywords : List String := ["node", "edge", "graph", "digraph", "subgraph", "strict"]

def withoutFinalBreak (cs : List Char) : List Char :=
  if cs.getLast? = some '\n' then cs.dropLast else cs

/-- a text between angle brackets, behind which a line may end -/
def isEnclosed (cs : List Char) : Bool :=
  let closes (ds : List Char) : Bool := decide (2 ≤ ds.length) && ds.getLast? == some '>'
  cs.head? == some '<' && (closes cs || closes (withoutFinalBreak cs))

def isName : List Char → Bool
  | [] => false
  | c :: cs => Token.isNameStart c && cs.all Token.isNameChar

def isUnsigned (cs : List Char) : Bool :=
  let whole := cs.takeWhile Char.isDigit
  match cs.dropWhile Char.isDigit with
  | [] => !whole.isEmpty
  | '.' :: fraction => fraction.all Char.isDigit && !(whole.isEmpty && fraction.isEmpty)
  | _ => false

def isNumber : List Char → Bool
  | '-' :: cs => isUnsigned cs
  | cs => isUnsigned cs

/-- a name or a number, behind which a line may end -/
def isPlain (cs : List Char) : Bool :=
  let ds := withoutFinalBreak cs
  isName ds || isNumber ds

def isKeyword (cs : List Char) : Bool := keywords.contains (String.ofList (cs.map Char.toLower))

/-- escapes each quote that an even number of backslashes stands before; `run` backslashes have been
read and not written yet -/
def escapeFrom (run : Nat) : List Char → List Char
  | [] => List.replicate run '\\'
  | c :: cs =>
    if c = '\\' then escapeFrom (run + 1) cs
    else if c = '"' then List.replicate (run / 2 * 2 + 1) '\\' ++ '"' :: escapeFrom 0 cs
    else List.replicate run '\\' ++ c :: escapeFrom 0 cs

def escape (cs : List Char) : List Char := escapeFrom 0 cs

def identifierChars (cs : List Char) : List Char :=
  if isEnclosed cs then cs
  else if isPlain cs && !isKeyword cs then cs
  else '"' :: escape cs ++ ['"']

def identifier (s : String) : String := String.ofList (identifierChars s.toList)

def setting (name : String) (value : Option String) : List String :=
  match value with
  | none => []
  | some v => [name ++ "=" ++ identifier v]

/-- attributes in square brackets, if there are any -/
def attributes (items : List String) : String :=
  if items.isEmpty then "" else " [" ++ " ".intercalate items ++ "]"

def line : Graph.Item → String
  | .node id label shape style =>
    "\t" ++ identifier id ++
      attributes (setting "label" label ++ setting "shape" shape ++ setting "style" style) ++
      "\n"
  | .edge source target style =>
    "\t" ++ identifier source ++ " -> " ++ identifier target ++
      attributes (setting "style" style) ++ "\n"

def render (comment : String) (items : List Graph.Item) : String :=
  "// " ++ comment ++ "\ndigraph \x7b\n" ++ String.join (items.map line) ++ "\x7d\n"

end Gemfile.Dot

namespace Gemfile

def State.dot (g : Setting) (s : State) : Except Fault String :=
  (Graph.ofState g s).map (Dot.render ("Dependencies for " ++ g.file))

end Gemfile
