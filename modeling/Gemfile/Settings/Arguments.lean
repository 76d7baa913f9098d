import Gemfile.Settings
import Gemfile.Text.DecimalDigit
import Gemfile.Text.Blank

/-!
# Arguments of the command line

* `Arguments.normal s`     an argument with what does not count taken out
* `Arguments.read? args`   the options that some arguments give, in order; `none` if they are no
                           options with their values

An option is two hyphens and the name of a setting, in any case of letters.  Its value is the next
argument, or stands behind an equals sign; a flag has no value, and `no-` before its name switches
it off.  An argument that starts with a hyphen is a value only if it is a hyphen, a negative number,
or has a space in it and no known option in front.
-/

namespace Gemfile.Arguments

open Settings

inductive Given where
  | value (s : String)
  /-- two hyphens behind the equals sign, which are no value -/
  | nothing
  | flag (b : Bool)
deriving DecidableEq

/-- the options by their spelling, with what the flags among them switch -/
def option? (s : String) : Option (Name × Option Bool) :=
  match names.find? fun e => "--" ++ e.1 == s with
  | some (_, n) => some (n, if isFlag n then some true else none)
  | none =>
    match names.find? fun e => isFlag e.2 && "--no-" ++ e.1 == s with
    | some (_, n) => some (n, some false)
    | none => none

def helpOptions : List String := ["-h", "--help"]

def isSpelling (s : String) : Bool := (option? s).isSome || helpOptions.contains s

/-- a hyphen and digits, with or without a point in front of the last row of them; a line break at
the end does not count -/
def isNegativeNumber (cs : List Char) : Bool :=
  match cs with
  | '-' :: r =>
    let r := if r.getLast? = some '\n' then r.dropLast else r
    let whole := r.takeWhile Text.isDecimalDigit
    match r.dropWhile Text.isDecimalDigit with
    | [] => !whole.isEmpty
    | '.' :: fraction => !fraction.isEmpty && fraction.all Text.isDecimalDigit
    | _ => false
  | _ => false

/-- a character that a name behind hyphens goes on with -/
def isNameChar (c : Char) : Bool := !Text.isBlank c && c != '='

/-- the spelling of an option that a name stands for in any case of letters, or the name itself -/
def spelling (name : List Char) : List Char :=
  let small := (String.ofList name).toLower
  if isSpelling small then small.toList else name

def normal (s : String) : String :=
  match s.toList with
  | '-' :: r =>
    let name := r.takeWhile isNameChar
    if name.isEmpty || isNegativeNumber ('-' :: r) then s
    else String.ofList
      (spelling ('-' :: name) ++ (r.dropWhile isNameChar).takeWhile (· != '\n'))
  | _ => s

/-- what stands before the first equals sign, and what stands behind it -/
def equation? (s : String) : Option (String × String) :=
  let cs := s.toList
  match cs.dropWhile (· != '=') with
  | [] => none
  | _ :: r => some (String.ofList (cs.takeWhile (· != '=')), String.ofList r)

/-- an option with its value in one argument -/
def joint? (s : String) : Option (Name × Option Bool × String) :=
  (equation? s).bind fun e => (option? e.1).map fun o => (o.1, o.2, e.2)

/-- a request for help: `-h` with anything behind it, or `--help` with a value or none -/
def isHelp (cs : List Char) : Bool :=
  match cs with
  | '-' :: 'h' :: _ => true
  | _ => cs.takeWhile (· != '=') == "--help".toList

/-- an argument with a known option in front -/
def isOption (s : String) : Bool := (option? s).isSome || (joint? s).isSome || isHelp s.toList

def isValue (s : String) : Bool :=
  match s.toList with
  | '-' :: r => r.isEmpty || (!isOption s && (isNegativeNumber ('-' :: r) || r.contains ' '))
  | _ => true

/-- what an option gets that has something behind an equals sign -/
def givenBehind (s : String) : Given := if s = "--" then .nothing else .value s

/-- the options that arguments without anything to take out give -/
def givenBy? : List String → Option (List (Name × Given))
  | [] => some []
  | a :: rest =>
    match option? a with
    | some (n, some b) => (givenBy? rest).map fun gs => (n, .flag b) :: gs
    | some (n, none) =>
      match rest with
      | [] => none
      | v :: rest => if isValue v then (givenBy? rest).map fun gs => (n, .value v) :: gs else none
    | none =>
      match joint? a with
      | some (n, none, v) => (givenBy? rest).map fun gs => (n, givenBehind v) :: gs
      | _ => none

def read? (args : List String) : Option (List (Name × Given)) := givenBy? (args.map normal)

end Gemfile.Arguments
