import Gemfile.Binary64.Text
import Gemfile.Report
import Gemfile.Text.CodePoint
import Gemfile.Text.Quoted

/-!
# JSON documents

* `Json`              a document; its texts may hold halves of pairs, as escapes can write them
* `Json.render d`     its text: four spaces for each level, one item a line, ASCII characters only
* `Json.ofValue v`    a value as a document
* `Report.json r`     a report as a document
-/

namespace Gemfile

inductive Json where
  | null
  | bool (b : Bool)
  | number (text : String)
  | text (s : Text.Codes)
  | array (items : List Json)
  | object (entries : List (Text.Codes × Json))

namespace Json

def ofText (s : String) : Json := .text (Text.codes s)

def entry (name : String) (d : Json) : Text.Codes × Json := (Text.codes name, d)

/-- the letter that stands for a control character behind a backslash -/
def letters : List (Char × Char) :=
  [('\x08', 'b'), ('\x0c', 'f'), ('\n', 'n'), ('\r', 'r'), ('\t', 't')]

def unit16 (n : Nat) : List Char := '\\' :: 'u' :: Text.hexDigits 4 n

/-- a character by its number, those above the first plane as two halves -/
def encodeNumber (n : Nat) : List Char :=
  if n < 0x10000 then unit16 n
  else unit16 (0xd800 + (n - 0x10000) / 0x400) ++ unit16 (0xdc00 + (n - 0x10000) % 0x400)

def encodeChar (c : Char) : List Char :=
  if c = '"' ∨ c = '\\' then ['\\', c]
  else
    match letters.lookup c with
    | some l => ['\\', l]
    | none => if ' ' ≤ c ∧ c ≤ '~' then [c] else encodeNumber c.toNat

/-- a code point; a half of a pair has only its number -/
def encodeCode (n : Nat) : List Char :=
  match Text.charOf? n with
  | some c => encodeChar c
  | none => encodeNumber n

def quoted (s : Text.Codes) : String :=
  String.ofList ('"' :: s.flatMap encodeCode ++ ['"'])

def lineBreak (level : Nat) : String := String.ofList ('\n' :: List.replicate (4 * level) ' ')

/-- the lines of a document between its brackets -/
def enclosed (level : Nat) (opening closing : String) (items : List String) : String :=
  if items.isEmpty then opening ++ closing
  else
    opening ++ ",".intercalate (items.map (lineBreak (level + 1) ++ ·)) ++ lineBreak level ++
      closing

mutual

/-- the text of a document that stands at a level of nesting -/
def textAt (level : Nat) : Json → String
  | .null => "null"
  | .bool true => "true"
  | .bool false => "false"
  | .number s => s
  | .text s => quoted s
  | .array ds => enclosed level "[" "]" (itemTexts (level + 1) ds)
  | .object es => enclosed level "\x7b" "\x7d" (entryTexts (level + 1) es)

def itemTexts (level : Nat) : List Json → List String
  | [] => []
  | d :: ds => textAt level d :: itemTexts level ds

def entryTexts (level : Nat) : List (Text.Codes × Json) → List String
  | [] => []
  | (k, d) :: es => (quoted k ++ ": " ++ textAt level d) :: entryTexts level es

end

def render (d : Json) : String := textAt 0 d

/-- numbers with a point as in messages, but for infinity and what is no number -/
def numberText (x : Binary64) : String :=
  { Binary64.standard with infinite := "Infinity", nan := "NaN" }.text x

def ofScalar : Scalar → Json
  | .nil => .null
  | .bool b => .bool b
  | .int n => .number (toString n)
  | .float x => .number (numberText x)
  | .str s => ofText s

mutual

def ofValue : Value → Json
  | .scalar s => ofScalar s
  | .list items => .array (ofItems items)
  | .hash entries => .object (ofEntries entries)

def ofItems : List Value → List Json
  | [] => []
  | v :: vs => ofValue v :: ofItems vs

def ofEntries : List (String × Value) → List (Text.Codes × Json)
  | [] => []
  | (k, v) :: es => entry k (ofValue v) :: ofEntries es

end

def nameText : Scalar → String
  | .nil => "null"
  | .bool true => "true"
  | .bool false => "false"
  | .int n => toString n
  | .float x => numberText x
  | .str s => s

end Json

def Dependency.json (d : Dependency) : Json :=
  .object [Json.entry "name" (Json.ofValue d.name),
    Json.entry "requirements" (.array (d.requirementTexts.map Json.ofText))]

def Report.json (r : Report) (excluded : List Text.Codes) : Json :=
  .object [
    Json.entry "file" (Json.ofText r.file),
    Json.entry "dependencies" (.array (r.requests.map Dependency.json)),
    Json.entry "groups" (.object (r.groups.map fun e =>
      Json.entry (Json.nameText e.1) (.array (e.2.map fun d => .array (Json.ofItems d.toList))))),
    Json.entry "without" (.array (excluded.map Json.text)),
    Json.entry "sources" (.array (Json.ofItems r.sources)),
    Json.entry "vendored" (.object (r.vendored.map fun e =>
      Json.entry (Json.nameText e.1) (Json.ofText e.2.text)))]

end Gemfile
