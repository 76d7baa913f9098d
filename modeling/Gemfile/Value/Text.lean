import Gemfile.Binary64.Text
import Gemfile.Text.Quoted
import Gemfile.Value

/-!
# The text of a value

* `Value.literal v`   the form of `v` that tells it apart from other values: texts are quoted
* `Value.text v`      the form of `v` inside a sentence: a text is itself, anything else is written
                      as by `literal`
-/

namespace Gemfile

def Scalar.literal : Scalar → String
  | .nil => "None"
  | .bool true => "True"
  | .bool false => "False"
  | .int n => toString n
  | .float x => x.text
  | .str s => Text.quoted s

def Scalar.text : Scalar → String
  | .str s => s
  | s => s.literal

mutual

def Value.literal : Value → String
  | .scalar s => s.literal
  | .list items => "[" ++ Value.literalItems items ++ "]"
  | .hash entries => "\x7b" ++ Value.literalEntries entries ++ "\x7d"

/-- the written forms of some values with commas between them -/
def Value.literalItems : List Value → String
  | [] => ""
  | [v] => v.literal
  | v :: w :: vs => v.literal ++ ", " ++ Value.literalItems (w :: vs)

def Value.literalEntries : List (String × Value) → String
  | [] => ""
  | [(k, v)] => Text.quoted k ++ ": " ++ v.literal
  | (k, v) :: e :: es =>
    Text.quoted k ++ ": " ++ v.literal ++ ", " ++ Value.literalEntries (e :: es)

end

def Value.text : Value → String
  | .scalar s => s.text
  | v => v.literal

/-- a fixed sequence of texts: in round brackets, a single one followed by a comma -/
def literalSequence : List String → String
  | [s] => "(" ++ Text.quoted s ++ ",)"
  | ss => "(" ++ Value.literalItems (ss.map Value.str) ++ ")"

theorem Value.text_str (s : String) : Value.text (.str s) = s := rfl

end Gemfile
