import Gemfile.Evaluation.State

/-!
# Gem declarations

* `effectiveGroups`   the groups that a gem belongs to: those of its `group` option, of its `groups`
                      option and of the block it stands in, each once
* `State.record`      files a declaration under each of its groups
* `excludedOf`        those of the groups that are excluded
* `State.declare`     a gem statement: registers the directory that vendors the gem, records the
                      declaration, and requests the gem unless one of its groups is excluded
-/

namespace Gemfile

/-- the options that say where a gem belongs and are not recorded with it -/
def routing : List String := ["path", "group", "groups"]

def recordedOptions (options : Options) : Options := options.filter fun e => !routing.contains e.1

def given (options : Options) (name : String) : Option Value :=
  match Table.get? name options with
  | none => none
  | some .nil => none
  | some v => some v

def groupOption (options : Options) : List Value :=
  match given options "group" with
  | none => []
  | some (.list vs) => vs
  | some v => [v]

def groupsOption (options : Options) : Except Fault (List Value) :=
  match given options "groups" with
  | none => .ok []
  | some (.str s) => .ok [.str s]
  | some v =>
    match v.elements? with
    | some vs => .ok vs
    | none => .error (.value .notElements)

def namesOf : List Value → Except Fault (List Scalar)
  | [] => .ok []
  | v :: vs => do
    let n ← Vendored.nameOf v
    let ns ← namesOf vs
    return n :: ns

def effectiveGroups (options : Options) (current : Option (List Value)) :
    Except Fault (List Scalar) := do
  let groups ← groupsOption options
  let names ← namesOf (groupOption options ++ groups ++ current.getD [])
  return distinct names

def addTo (group : Scalar) (d : Declaration) (t : Table Scalar (List Declaration)) :
    Table Scalar (List Declaration) :=
  Table.put group ((Table.get? group t).getD [] ++ [d]) t

/-- the texts that some names are; `none` if one of them is no text -/
def textsOf? : List Scalar → Option (List String)
  | [] => some []
  | .str s :: names => (textsOf? names).map (s :: ·)
  | _ => none

/-- the texts that some names are, in order; `none` if one of them is no text -/
def sortedTexts? (names : List Scalar) : Option (List String) :=
  (textsOf? names).map fun ss => ss.mergeSort fun a b => decide (a ≤ b)

namespace State

def record (s : State) (groups : List Scalar) (d : Declaration) : State :=
  { s with groups := groups.foldl (fun t g => addTo g d t) s.groups }

/-- registers the directory of a vendored gem, if one is given -/
def vendor (s : State) (name : Value) (options : Options) : Except Fault State :=
  match given options "path" with
  | none => .ok s
  | some directory =>
    (s.vendored.add name directory).map fun t => ({ s with vendored := t.1 } : State).write t.2

def request (s : State) (name : Value) (requirements : List Value) :
    Except Fault (Dependency × State) :=
  match Dependency.ofValues name requirements with
  | .error f => .error (.requirement f none)
  | .ok d =>
    .ok (d, { s with requests := s.requests ++ [d] }.note .debug .requests
      ("Requesting " ++ d.text))

end State

def excludedOf (without groups : List Scalar) : List Scalar :=
  groups.filter fun g => among g without

namespace State

/-- notes that a gem is left out because of some groups -/
def skip (s : State) (name : Value) (excluded : List Scalar) : Except Fault State :=
  match sortedTexts? excluded with
  | none => .error (.value .notText)
  | some texts =>
    .ok (s.note .info .evaluation
      ("Skipping gem " ++ name.text ++ " from excluded groups " ++ ", ".intercalate texts))

/-- requests a recorded gem, unless some of its groups are excluded -/
def route (s : State) (name : Value) (requirements : List Value) (excluded : List Scalar) :
    Except Fault State :=
  if excluded.isEmpty then (s.request name requirements).map Prod.snd else s.skip name excluded

def place (g : Setting) (name : Value) (requirements : List Value) (options : Options)
    (s : State) : Outcome :=
  match effectiveGroups options s.currentGroups with
  | .error f => .failed s f
  | .ok groups =>
    let s := s.record groups ⟨name, requirements, recordedOptions options⟩
    .ofExcept s (s.route name requirements (excludedOf g.without groups))

def declare (g : Setting) (name : Value) (requirements : List Value) (options : Options)
    (s : State) : Outcome :=
  (Outcome.ofExcept s (s.vendor name options)).andThen (place g name requirements options)

end State

end Gemfile
