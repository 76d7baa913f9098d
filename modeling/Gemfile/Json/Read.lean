import Gemfile.Json

/-!
# Reading JSON

* `Json.read? cs`   the document that a text writes, blanks around it allowed, and `none` for other
                    texts

Numbers are kept as they are spelled; the names of infinity and of what is no number count as
numbers.  Two escaped halves that are a pair are read as one character, and others are kept.
-/

namespace Gemfile.Json

def isBlank (c : Char) : Bool := c == ' ' || c == '\t' || c == '\n' || c == '\r'

def skipBlanks (cs : List Char) : List Char := cs.dropWhile isBlank

def hexValue? (c : Char) : Option Nat :=
  if '0' ≤ c ∧ c ≤ '9' then some (c.toNat - 0x30)
  else if 'a' ≤ c ∧ c ≤ 'f' then some (c.toNat - 0x57)
  else if 'A' ≤ c ∧ c ≤ 'F' then some (c.toNat - 0x37)
  else none

def hexNumber? (cs : List Char) : Option Nat :=
  cs.foldl (fun n c => n.bind fun n => (hexValue? c).map (16 * n + ·)) (some 0)

/-- the characters that stand for themselves or for another one behind a backslash -/
def plainEscape? (c : Char) : Option Char :=
  if c = '"' ∨ c = '\\' ∨ c = '/' then some c
  else (letters.find? fun e => e.2 == c).map Prod.fst

/-- the numbers of the characters up to the closing quote, halves apart, and the rest -/
def unitsFrom : List Char → Option (Text.Codes × List Char)
  | [] => none
  | '"' :: r => some ([], r)
  | '\\' :: 'u' :: a :: b :: c :: d :: r =>
    (hexNumber? [a, b, c, d]).bind fun n => (unitsFrom r).map fun t => (n :: t.1, t.2)
  | '\\' :: c :: r =>
    (plainEscape? c).bind fun e => (unitsFrom r).map fun t => (e.toNat :: t.1, t.2)
  | c :: r => if c < ' ' ∨ c = '\\' then none else (unitsFrom r).map fun t => (c.toNat :: t.1, t.2)

/-- a text, from behind its opening quote -/
def textFrom (cs : List Char) : Option (Text.Codes × List Char) :=
  (unitsFrom cs).map fun t => (Text.paired t.1, t.2)

/-- what stands behind a prefix -/
def behind? : List Char → List Char → Option (List Char)
  | [], cs => some cs
  | _ :: _, [] => none
  | p :: ps, c :: cs => if p = c then behind? ps cs else none

def digitsFrom (cs : List Char) : Option (List Char × List Char) :=
  match cs.takeWhile Char.isDigit with
  | [] => none
  | ds => some (ds, cs.dropWhile Char.isDigit)

def fractionFrom : List Char → List Char × List Char
  | '.' :: cs =>
    match digitsFrom cs with
    | some (ds, r) => ('.' :: ds, r)
    | none => ([], '.' :: cs)
  | cs => ([], cs)

/-- a letter, a sign or none, and digits; or nothing -/
def exponentFrom (cs : List Char) : List Char × List Char :=
  match cs with
  | e :: r =>
    if e = 'e' ∨ e = 'E' then
      let s := r.takeWhile fun c => c == '+' || c == '-'
      if s.length ≤ 1 then
        match digitsFrom (r.drop s.length) with
        | some (ds, r) => (e :: s ++ ds, r)
        | none => ([], cs)
      else ([], cs)
    else ([], cs)
  | [] => ([], [])

/-- digits without a zero in front of others -/
def wholeFrom : List Char → Option (List Char × List Char)
  | '0' :: cs => some (['0'], cs)
  | cs => digitsFrom cs

def numberFrom (cs : List Char) : Option (String × List Char) :=
  let sign := cs.takeWhile (· == '-')
  if 1 < sign.length then none
  else
    (wholeFrom (cs.drop sign.length)).map fun w =>
      let f := fractionFrom w.2
      let e := exponentFrom f.2
      (String.ofList (sign ++ w.1 ++ f.1 ++ e.1), e.2)

/-- the documents that are words -/
def wordDocuments : List (String × Json) :=
  [("null", .null), ("true", .bool true), ("false", .bool false), ("NaN", .number "NaN"),
   ("Infinity", .number "Infinity"), ("-Infinity", .number "-Infinity")]

def wordFrom (cs : List Char) : List (String × Json) → Option (Json × List Char)
  | [] => none
  | (w, d) :: ws =>
    match behind? w.toList cs with
    | some r => some (d, r)
    | none => wordFrom cs ws

/-- a document that is not made of others -/
def leafFrom (cs : List Char) : Option (Json × List Char) :=
  match cs with
  | '"' :: r => (textFrom r).map fun t => (.text t.1, t.2)
  | _ =>
    match wordFrom cs wordDocuments with
    | some t => some t
    | none => (numberFrom cs).map fun t => (.number t.1, t.2)

mutual

/-- a document with at most so many others inside -/
def documentFrom : Nat → List Char → Option (Json × List Char)
  | 0, _ => none
  | n + 1, cs =>
    match cs with
    | '[' :: r =>
      match skipBlanks r with
      | ']' :: r => some (.array [], r)
      | r => (itemsFrom n r).map fun t => (.array t.1, t.2)
    | '\x7b' :: r =>
      match skipBlanks r with
      | '\x7d' :: r => some (.object [], r)
      | r => (entriesFrom n r).map fun t => (.object t.1, t.2)
    | cs => leafFrom cs

def itemsFrom : Nat → List Char → Option (List Json × List Char)
  | 0, _ => none
  | n + 1, cs =>
    match documentFrom n (skipBlanks cs) with
    | none => none
    | some (d, r) =>
      match skipBlanks r with
      | ',' :: r => (itemsFrom n r).map fun t => (d :: t.1, t.2)
      | ']' :: r => some ([d], r)
      | _ => none

def entriesFrom : Nat → List Char → Option (List (Text.Codes × Json) × List Char)
  | 0, _ => none
  | n + 1, cs =>
    match skipBlanks cs with
    | '"' :: r =>
      match textFrom r with
      | none => none
      | some (k, r) =>
        match skipBlanks r with
        | ':' :: r =>
          match documentFrom n (skipBlanks r) with
          | none => none
          | some (d, r) =>
            match skipBlanks r with
            | ',' :: r => (entriesFrom n r).map fun t => ((k, d) :: t.1, t.2)
            | '\x7d' :: r => some ([(k, d)], r)
            | _ => none
        | _ => none
    | _ => none

end

def read? (cs : List Char) : Option Json :=
  match documentFrom (2 * cs.length + 2) (skipBlanks cs) with
  | some (d, r) => if (skipBlanks r).isEmpty then some d else none
  | none => none

end Gemfile.Json
