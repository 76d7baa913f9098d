import Gemfile.Value

/-!
# Statements

* `Statement`        a name with arguments, options, a block or none, and the line of the name
* `Statement.Kind`   the statements that a dependency file may use, by name
* `Statement.induct`   induction over statements and the blocks in them
-/

namespace Gemfile

structure Statement where
  name : String
  args : List Value
  options : Options
  body : Option (List Statement)
  line : Nat

namespace Statement

inductive Kind where
  | gem
  | group
  | platform
  | platforms
  | ruby
  | source
deriving DecidableEq

def Kind.name : Kind → String
  | .gem => "gem"
  | .group => "group"
  | .platform => "platform"
  | .platforms => "platforms"
  | .ruby => "ruby"
  | .source => "source"

def Kind.all : List Kind := [.gem, .group, .platform, .platforms, .ruby, .source]

def Kind.ofName? (name : String) : Option Kind := Kind.all.find? fun k => k.name == name

def kind? (s : Statement) : Option Kind := Kind.ofName? s.name

theorem Kind.ofName?_name (k : Kind) : Kind.ofName? k.name = some k := by
  cases k <;> decide

/-- induction over a list of statements and the blocks in it -/
theorem induct {P : List Statement → Prop} (nil : P [])
    (cons : ∀ t ts, (∀ b, t.body = some b → P b) → P ts → P (t :: ts)) (ts : List Statement) :
    P ts :=
  @Statement.rec_2 (fun t => ∀ b, t.body = some b → P b) (fun o => ∀ b, o = some b → P b) P
    (fun _ _ _ _ _ h => h) (fun _ h => nomatch h) (fun _ h _ hb => Option.some.inj hb ▸ h)
    nil cons ts

end Statement

end Gemfile
