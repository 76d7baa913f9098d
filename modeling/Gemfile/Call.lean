import Gemfile.Value.OfTokens

/-!
# Arguments of a statement

* `Call`                        positional arguments, and options by name
* `Call.argument`               one more argument: positional, `key: value` or `key => value`
* `Call.settle`                 a hash that comes last is the options, if there are none yet
* `Call.bare`, `Call.inBrackets`   the arguments without round brackets and in them
-/

namespace Gemfile

open Token

structure Call where
  args : List Value
  options : Options
deriving DecidableEq

namespace Call

def empty : Call := ⟨[], []⟩

def withArg (c : Call) (v : Value) : Call := { c with args := c.args ++ [v] }

def withOption (c : Call) (k : String) (v : Value) : Call :=
  { c with options := Table.put k v c.options }

def settle (c : Call) : Call :=
  match c.options, c.args.getLast? with
  | [], some (.hash entries) => ⟨c.args.dropLast, entries⟩
  | _, _ => c

def argument (c : Call) : List Token → Except SyntaxFault (Parsed Call)
  | [] => .error exhausted
  | t :: ts =>
    if t.isKind .label then do
      let (v, ts) ← Value.ofTokens (skipNewlines ts)
      return (c.withOption t.labelName v, ts)
    else do
      let (v, ts) ← Value.ofTokens (t :: ts)
      match ts with
      | [] => .error exhausted
      | u :: us =>
        if u.isKind .arrow then
          let (w, us) ← Value.ofTokens (skipNewlines us)
          let k ← keyOf t v
          return (c.withOption k w, us)
        else if c.options.isEmpty then return (c.withArg v, u :: us)
        else .error ⟨t.line, .positionalAfterKeyword⟩

/-- at most `n` more arguments with commas between them; line breaks may stand before a comma if
`bracketed` -/
def argumentsFrom (bracketed : Bool) : Nat → Call → List Token → Except SyntaxFault (Parsed Call)
  | 0, _, _ => .error exhausted
  | n + 1, c, ts => do
    let (c, ts) ← c.argument ts
    let ts := if bracketed then skipNewlines ts else ts
    if startsWith comma ts then argumentsFrom bracketed n c (skipNewlines (ts.drop 1))
    else return (c, ts)

def bare (ts : List Token) : Except SyntaxFault (Parsed Call) := do
  let (c, ts) ← argumentsFrom false (ts.length + 1) empty ts
  return (c.settle, ts)

def inBrackets (ts : List Token) : Except SyntaxFault (Parsed Call) := do
  let ts := skipNewlines ts
  if startsWith closeCall ts then return (empty, ts.drop 1)
  else
    let (c, ts) ← argumentsFrom true (ts.length + 1) empty ts
    let ts ← expect closeCall ts
    return (c.settle, ts)

end Call

end Gemfile
