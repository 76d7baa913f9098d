import Gemfile.Settings.Arguments
import Gemfile.Settings.List

/-!
# Settings from arguments and variables

* `Settings.read`   the settings that arguments and environment variables ask for, or why there are
                    none

An argument comes before a variable, and a variable before the standard value.  A variable has the
name of its setting behind `GEM_DEPS_`, in any case of letters; a list in it is a JSON document, and
`null` is none.  The argument `null` takes a setting away that need not have a value.
-/

namespace Gemfile.Settings

open Arguments (Given)

/-- the value that is asked for, before it is checked against its setting -/
inductive Raw where
  | text (s : String)
  | document (d : Json)
  | flag (b : Bool)
  | absent

/-- the text that takes a setting away -/
def absentText : String := "null"

def lastGiven (n : Name) (given : List (Name × Given)) : Option Given :=
  (given.reverse.find? fun e => e.1 == n).map Prod.snd

def allGiven (n : Name) : List (Name × Given) → List String
  | [] => []
  | (m, .value s) :: rest => if m = n then s :: allGiven n rest else allGiven n rest
  | (m, .nothing) :: rest => if m = n then [] else allGiven n rest
  | (_, .flag _) :: rest => allGiven n rest

/-- the text for a setting that gets no value: that of a list without items -/
def emptyText : String := "[]"

def fromArguments (given : List (Name × Given)) (n : Name) : Except Fault (Option Raw) :=
  match lastGiven n given with
  | none => .ok none
  | some last =>
    if n = .without then
      match ListSetting.document? (allGiven n given) with
      | none => .error .unreadable
      | some d => .ok (some (.document d))
    else
      match last with
      | .flag b => .ok (some (.flag b))
      | .nothing => .ok (some (.text emptyText))
      | .value s => .ok (some (if s = absentText then .absent else .text s))

def variablePrefix : String := "gem_deps_"

/-- the last variable that belongs to a setting -/
def lastVariable? (environment : List (String × String)) (n : Name) : Option String :=
  (environment.reverse.find? fun e =>
    names.any fun m => m.2 == n && e.1.toLower == variablePrefix ++ m.1).map Prod.snd

def fromVariables (environment : List (String × String)) (n : Name) : Except Fault (Option Raw) :=
  match lastVariable? environment n with
  | none => .ok none
  | some s =>
    if n = .without then
      match Json.read? s.toList with
      | none => .error .unreadable
      | some .null => .ok none
      | some d => .ok (some (.document d))
    else .ok (some (.text s))

/-- the texts that switch a flag on, and those that switch it off -/
def onTexts : List String := ["1", "on", "t", "true", "y", "yes"]
def offTexts : List String := ["0", "off", "f", "false", "n", "no"]

def flagOf : Raw → Except Fault Bool
  | .flag b => .ok b
  | .text s =>
    if onTexts.contains s.toLower then .ok true
    else if offTexts.contains s.toLower then .ok false
    else .error .invalid
  | _ => .error .invalid

def textOf : Raw → Except Fault String
  | .text s => .ok s
  | _ => .error .invalid

def optionalOf : Raw → Except Fault (Option String)
  | .absent => .ok none
  | r => (textOf r).map some

def textsOf : Raw → Except Fault (List Text.Codes)
  | .document d => ListSetting.textsOf d
  | _ => .error .invalid

def formatOf (r : Raw) : Except Fault Format := do
  let s ← textOf r
  if s = "json" then return .json
  else if s = "dot" then return .dot
  else throw .invalid

def assign (s : Settings) (r : Raw) : Name → Except Fault Settings
  | .target => (textOf r).map fun t => { s with target := Path.ofText t }
  | .without => (textsOf r).map fun ts => { s with without := ts }
  | .force => (flagOf r).map fun b => { s with force := b }
  | .logLevel => (textOf r).map fun t => { s with logLevel := t }
  | .outputFile => (optionalOf r).map fun t => { s with outputFile := t.map Path.ofText }
  | .outputFormat => (formatOf r).map fun f => { s with outputFormat := f }
  | .rubyVersion => (optionalOf r).map fun t => { s with rubyVersion := t }
  | .rubyEngine => (textOf r).map fun t => { s with rubyEngine := t }
  | .rubyEngineVersion => (optionalOf r).map fun t => { s with rubyEngineVersion := t }
  | .version => (flagOf r).map fun b => { s with version := b }

/-- the settings with the values that are asked for in the place of others -/
def assignAll (s : Settings) : List (Name × Raw) → Except Fault Settings
  | [] => .ok s
  | (n, r) :: rest => do
    let s ← assign s r n
    assignAll s rest

def collect (source : Name → Except Fault (Option Raw)) :
    List Name → Except Fault (List (Name × Raw))
  | [] => .ok []
  | n :: ns => do
    let r ← source n
    let rest ← collect source ns
    match r with
    | some r => return (n, r) :: rest
    | none => return rest

def read (args : List String) (environment : List (String × String)) : Except Fault Settings := do
  match Arguments.read? args with
  | none => throw .usage
  | some given =>
    let asked ← collect (fromArguments given) (names.map Prod.snd)
    let found ← collect (fromVariables environment) (names.map Prod.snd)
    let kept := found.filter fun v => !asked.any fun a => a.1 == v.1
    assignAll standard (kept ++ asked)

end Gemfile.Settings
