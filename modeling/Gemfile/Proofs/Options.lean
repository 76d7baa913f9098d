import Gemfile.Evaluation.Gem
import Gemfile.Proofs.Except
import Mathlib.Tactic.Lemma

/-!
# What options say

What the options of a statement say as they are written, whatever an evaluation makes of them.

* `Options.value? o name`   the value that an option is given, if it is given one other than nil
* `Options.groups o`        the names in the options `group` and `groups`, in this order
* `Options.residual o`      the options that do not say where a gem belongs
* `given_eq`, `groupOption_eq`, `groupsOption_ok`, `recordedOptions_eq`   an evaluation reads the same
-/

namespace Gemfile

/-- a list stands for its items, and any other value for itself -/
def Value.expanded : Value → List Value
  | .list items => items
  | v => [v]

/-- a text stands for itself, a list for its items, and a hash for its names -/
def Value.listed : Value → List Value
  | .str s => [.str s]
  | .list items => items
  | .hash entries => entries.map fun e => .str e.1
  | _ => []

namespace Options

def value? (o : Options) (name : String) : Option Value :=
  (o.lookup name).filter fun v => v ≠ .nil

def groups (o : Options) : List Value :=
  (o.value? "group").elim [] Value.expanded ++ (o.value? "groups").elim [] Value.listed

def residual (o : Options) : Options :=
  o.filter fun e => e.1 ≠ "path" ∧ e.1 ≠ "group" ∧ e.1 ≠ "groups"

end Options

lemma get?_eq_lookup (o : Options) (name : String) : Table.get? name o = o.lookup name := by
  induction o with
  | nil => rfl
  | cons e o ih =>
    obtain ⟨n, v⟩ := e
    have hkey : sameKey name n = (name == n) := rfl
    rw [Table.get?, List.lookup_cons, hkey, ih]
    cases name == n <;> rfl

lemma given_eq (o : Options) (name : String) : given o name = o.value? name := by
  unfold given Options.value?
  rw [get?_eq_lookup]
  cases o.lookup name with
  | none => rfl
  | some v =>
    cases v with
    | scalar k => cases k <;> rfl
    | list items => rfl
    | hash entries => rfl

lemma groupOption_eq (o : Options) : groupOption o = (o.value? "group").elim [] Value.expanded := by
  unfold groupOption
  rw [given_eq]
  cases o.value? "group" with
  | none => rfl
  | some v => cases v <;> rfl

lemma groupsOption_ok {o : Options} {vs : List Value} (h : groupsOption o = .ok vs) :
    vs = (o.value? "groups").elim [] Value.listed := by
  unfold groupsOption at h
  rw [given_eq] at h
  cases hg : o.value? "groups" with
  | none =>
    rw [hg] at h
    cases h
    rfl
  | some v =>
    rw [hg] at h
    cases v with
    | scalar k =>
      cases k <;> cases h
      rfl
    | list items =>
      cases h
      rfl
    | hash entries =>
      cases h
      rfl

/-- where the names of both options can be found, they are those that the options say -/
lemma groupOption_append {o : Options} {vs : List Value} (h : groupsOption o = .ok vs) :
    groupOption o ++ vs = o.groups := by
  rw [groupOption_eq, groupsOption_ok h]
  rfl

lemma recordedOptions_eq (o : Options) : recordedOptions o = o.residual := by
  unfold recordedOptions Options.residual
  refine List.filter_congr fun e _ => ?_
  simp [routing]

end Gemfile
