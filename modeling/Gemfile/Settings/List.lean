import Gemfile.Json.Read
import Gemfile.Settings

/-!
# Lists among the settings

A list is given by values one after the other, each with items between commas; square brackets
around a value's items do not count, and empty ones say nothing.  An item is a word, an object or a
list of JSON, or any other text, which needs no quotes and in which no backslash escapes anything.

* `ListSetting.items?`      the items of some values as documents
* `ListSetting.document?`   the document that lists them
* `ListSetting.textsOf`     the texts that a document lists
-/

namespace Gemfile.ListSetting

/-- a text without the first item in it, if it is one -/
abbrev Taken := Option (List Char × List Char)

/-- the item that nothing between two commas is -/
def emptyItem : List Char := ['"', '"']

/-- an item in brackets; `depth` is the number of brackets opened less that of brackets closed,
`quoted` tells whether a quote is open, and `before` is the character before the text -/
def bracketedFrom (closing : Char) (depth : Int) (quoted : Bool) (before : Char) :
    List Char → Taken
  | [] => none
  | c :: r =>
    let next (d : Int) (q : Bool) := (bracketedFrom closing d q c r).map fun t => (c :: t.1, t.2)
    if c = '"' ∧ before ≠ '\\' then next depth (!quoted)
    else if quoted then next depth quoted
    else if c = '\x7b' ∨ c = '[' then next (depth + 1) quoted
    else if c = '\x7d' ∨ c = ']' then
      if c = closing ∧ depth = 1 then some ([c], r) else next (depth - 1) quoted
    else next depth quoted

/-- an item up to the next comma that is in no quotes -/
def plainFrom (quoted : Bool) (before : Char) : List Char → Taken
  | [] => if quoted then none else some ([], [])
  | c :: r =>
    let q := if c = '"' ∧ before ≠ '\\' then !quoted else quoted
    if !q && c == ',' then some ([], c :: r)
    else (plainFrom q c r).map fun t => (c :: t.1, t.2)

/-- the items that are no texts, lists and objects apart -/
def words : List String := ["true", "false", "null"]

/-- an item as a document: what is no word is put in quotes, unless it starts with one -/
def itemDocument (cs : List Char) : List Char :=
  if words.contains (String.ofList cs) || cs.head? == some '"' then cs else '"' :: cs ++ ['"']

/-- the first item of a text that does not start with a comma -/
def itemFrom : List Char → Taken
  | '\x7b' :: r => (bracketedFrom '\x7d' 1 false '\x7b' r).map fun t => ('\x7b' :: t.1, t.2)
  | '[' :: r => (bracketedFrom ']' 1 false '[' r).map fun t => ('[' :: t.1, t.2)
  | cs => (plainFrom false ' ' cs).map fun t => (itemDocument (Text.strip t.1), t.2)

/-- the items of a text, and whether an item and not a comma ends it; `ended` tells the same of what
comes before it, and `n` bounds the commas and items -/
def itemsFrom : Nat → Bool → List Char → Option (List (List Char) × Bool)
  | 0, _, _ => none
  | n + 1, ended, cs =>
    if cs.isEmpty then some (if ended then [] else [emptyItem], ended)
    else
      match Text.strip cs with
      | ',' :: r =>
        (itemsFrom n false r).map fun t => (if ended then t.1 else emptyItem :: t.1, t.2)
      | cs =>
        match itemFrom cs with
        | none => none
        | some (item, r) => (itemsFrom n true r).map fun t => (item :: t.1, t.2)

/-- a value without blanks around it and without square brackets around that; `none` if the brackets
have nothing between them -/
def bare? (cs : List Char) : Option (List Char) :=
  let cs := Text.strip cs
  match cs with
  | '[' :: r =>
    if r.getLast? = some ']' then
      let inner := Text.strip r.dropLast
      if inner.isEmpty then none else some inner
    else some cs
  | _ => some cs

/-- the items of some values; `ended` as in `itemsFrom` -/
def allFrom (ended : Bool) : List String → Option (List (List Char))
  | [] => some []
  | v :: vs =>
    match bare? v.toList with
    | none => allFrom ended vs
    | some cs =>
      match itemsFrom (2 * cs.length + 2) ended cs with
      | none => none
      | some (items, ended) => (allFrom ended vs).map (items ++ ·)

def items? (vs : List String) : Option (List (List Char)) := allFrom false vs

def escaped (cs : List Char) : List Char :=
  cs.flatMap fun c => if c = '\\' then ['\\', '\\'] else [c]

def listed (items : List (List Char)) : List Char :=
  '[' :: [','].intercalate (items.map escaped) ++ [']']

def document? (vs : List String) : Option Json :=
  (items? vs).bind fun items => Json.read? (listed items)

def textsFrom : List Json → Except Settings.Fault (List Text.Codes)
  | [] => .ok []
  | .text s :: ds => (textsFrom ds).map (s :: ·)
  | _ => .error .invalid

def textsOf : Json → Except Settings.Fault (List Text.Codes)
  | .array ds => textsFrom ds
  | _ => .error .invalid

end Gemfile.ListSetting
