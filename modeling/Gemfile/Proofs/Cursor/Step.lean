import Gemfile.Value.OfTokens
import Mathlib.Tactic.Lemma

/-!
# Tokens read through a cursor

The readers of a file look at its tokens through one cursor, which they move from token to token.  A
step does so and leaves a record of it: which places were looked at and passed, which readers were
called while others were at work, and from where to where the turns of the loops led.

* `Event`, `Run`     what is recorded, and a run with its record, the place it stops at and its result
* `Path i es j`      the events `es` lead the cursor from `i` to `j`: it moves by passing tokens only
* `Step α`           a step from any place of any tokens, whose record is a path
* `look`, `take`     look at the token at hand, and pass it
* `call`, `turned`   record that a reader is called, and that a turn of a loop is over

Nothing bounds the cursor: looking where no token is stops a run with `Stop.index`.
-/

namespace Gemfile.Cursor

/-! ## what is recorded -/

/-- the readers that call each other -/
inductive Reader where
  | statements
  | statement
  | arguments
  | argument
  | array
  | hash
  | value
deriving DecidableEq

/-- the loops of the readers, and the one that passes line breaks -/
inductive Loop where
  | newlines
  | statements
  | arguments
  | items
  | entries
deriving DecidableEq

/-- a reader at work, and the place where it was called -/
structure Frame where
  reader : Reader
  start : Nat
deriving DecidableEq

inductive Event where
  /-- the token at a place is looked at -/
  | look (i : Nat)
  /-- the cursor passes the token at a place -/
  | take (i : Nat)
  /-- a reader is called while others are at work, the innermost one first -/
  | call (f : Frame) (active : List Frame)
  /-- a turn of a loop that began at `i` is over at `j`, whether or not the loop goes on -/
  | turn (l : Loop) (i j : Nat)
deriving DecidableEq

/-- why a run ends without a result -/
inductive Stop where
  | fault (f : SyntaxFault)
  /-- a token or a character is sought at a place where there is none -/
  | index
  /-- a word is looked up that is not listed -/
  | lookup
  /-- something is filed under a key that is no text -/
  | key
  /-- a text is read as a number that is none -/
  | numeral
  /-- the calls and turns that are allowed are used up -/
  | endless
deriving DecidableEq

structure Run (α : Type) where
  events : List Event
  pos : Nat
  result : Except Stop α

/-! ## paths -/

/-- each event is one of the place that the cursor has come to, and passing a token moves it by one -/
inductive Path : Nat → List Event → Nat → Prop
  | nil (i : Nat) : Path i [] i
  | look {i j : Nat} {es : List Event} : Path i es j → Path i (.look i :: es) j
  | take {i j : Nat} {es : List Event} : Path (i + 1) es j → Path i (.take i :: es) j
  | call {i j : Nat} {es : List Event} (r : Reader) (active : List Frame) :
      Path i es j → Path i (.call ⟨r, i⟩ active :: es) j
  | turn {i j : Nat} {es : List Event} (l : Loop) (start : Nat) :
      Path i es j → Path i (.turn l start i :: es) j

namespace Path
variable {i j k : Nat} {a b : List Event}

lemma append (ha : Path i a j) (hb : Path j b k) : Path i (a ++ b) k := by
  induction ha with
  | nil => exact hb
  | look _ ih => exact .look (ih hb)
  | take _ ih => exact .take (ih hb)
  | call r active _ ih => exact .call r active (ih hb)
  | turn l start _ ih => exact .turn l start (ih hb)

/-- a path is made up of the paths of its parts -/
lemma split (h : Path i (a ++ b) k) : ∃ j, Path i a j ∧ Path j b k := by
  induction a generalizing i with
  | nil => exact ⟨i, .nil i, h⟩
  | cons e a ih =>
    cases h with
    | look h =>
      obtain ⟨j, h1, h2⟩ := ih h
      exact ⟨j, .look h1, h2⟩
    | take h =>
      obtain ⟨j, h1, h2⟩ := ih h
      exact ⟨j, .take h1, h2⟩
    | call r active h =>
      obtain ⟨j, h1, h2⟩ := ih h
      exact ⟨j, .call r active h1, h2⟩
    | turn l start h =>
      obtain ⟨j, h1, h2⟩ := ih h
      exact ⟨j, .turn l start h1, h2⟩

/-- the cursor does not go back -/
lemma le_of_mem (h : Path i a j) {n : Nat} (hn : .look n ∈ a ∨ .take n ∈ a) : i ≤ n := by
  induction h with
  | nil => simp at hn
  | look _ ih =>
    simp only [List.mem_cons, Event.look.injEq, reduceCtorEq, false_or] at hn
    rcases hn with (rfl | hn) | hn
    · exact Nat.le_refl _
    · exact ih (.inl hn)
    · exact ih (.inr hn)
  | take _ ih =>
    simp only [List.mem_cons, Event.take.injEq, reduceCtorEq, false_or] at hn
    rcases hn with hn | rfl | hn
    · exact Nat.le_of_succ_le (ih (.inl hn))
    · exact Nat.le_refl _
    · exact Nat.le_of_succ_le (ih (.inr hn))
  | call _ _ _ ih => exact ih (by simpa using hn)
  | turn _ _ _ ih => exact ih (by simpa using hn)

/-- a token is passed once, and is not looked at behind that -/
lemma lt_of_taken {n m : Nat} (h : Path i (a ++ .take n :: b) j)
    (hm : .look m ∈ b ∨ .take m ∈ b) : n < m := by
  obtain ⟨_, -, h⟩ := h.split
  cases h with
  | take h => exact h.le_of_mem hm

end Path

/-! ## steps -/

namespace Run
variable {α β : Type}

/-- the same run behind other events -/
def behind (es : List Event) (r : Run α) : Run α := ⟨es ++ r.events, r.pos, r.result⟩

/-- a run goes on from its result and its place -/
def andThen (r : Run α) (next : α → Nat → Run β) : Run β :=
  match r.result with
  | .ok v => (next v r.pos).behind r.events
  | .error s => ⟨r.events, r.pos, .error s⟩

lemma andThen_behind (es : List Event) (r : Run α) (next : α → Nat → Run β) :
    (r.behind es).andThen next = (r.andThen next).behind es := by
  obtain ⟨fs, p, v | v⟩ := r
  · rfl
  · show Run.mk (es ++ fs ++ (next v p).events) (next v p).pos (next v p).result = _
    rw [List.append_assoc]
    rfl

end Run

/-- from any tokens, with the readers at work and the place of the cursor -/
structure Step (α : Type) where
  run : List Token → List Frame → Nat → Run α
  path : ∀ ts active i, Path i (run ts active i).events (run ts active i).pos

namespace Step
variable {α β γ : Type}

theorem ext {x y : Step α} (h : ∀ ts active i, x.run ts active i = y.run ts active i) : x = y := by
  obtain ⟨f, _⟩ := x
  obtain ⟨g, _⟩ := y
  obtain rfl : f = g := funext fun ts => funext fun active => funext fun i => h ts active i
  rfl

def done (v : α) : Step α where
  run _ _ i := ⟨[], i, .ok v⟩
  path _ _ i := .nil i

def andThen (x : Step α) (f : α → Step β) : Step β where
  run ts active i := (x.run ts active i).andThen fun v p => (f v).run ts active p
  path ts active i := by
    have hx := x.path ts active i
    unfold Run.andThen
    split
    · exact hx.append ((f _).path ts active _)
    · exact hx

instance : Monad Step where
  pure := done
  bind := andThen

lemma bind_run (x : Step α) (f : α → Step β) (ts : List Token) (active : List Frame) (i : Nat) :
    (x >>= f).run ts active i =
      (x.run ts active i).andThen fun v p => (f v).run ts active p := rfl

lemma done_bind (v : α) (f : α → Step β) : (pure v >>= f) = f v := rfl

lemma bind_assoc (x : Step α) (f : α → Step β) (g : β → Step γ) :
    (x >>= f) >>= g = x >>= fun v => f v >>= g := by
  apply ext
  intro ts active i
  rw [bind_run, bind_run, bind_run]
  obtain ⟨es, p, v | v⟩ := x.run ts active i
  · rfl
  · exact Run.andThen_behind es _ _

end Step

/-! ## the steps that readers are made of -/

section
variable {α : Type}

def stop (s : Stop) : Step α where
  run _ _ i := ⟨[], i, .error s⟩
  path _ _ i := .nil i

/-- the fault `c` on the line of the token `t` -/
def fault (t : Token) (c : SyntaxCause) : Step α := stop (.fault ⟨t.line, c⟩)

/-- the token at hand -/
def look : Step Token where
  run ts _ i := ⟨[.look i], i, match ts[i]? with | some t => .ok t | none => .error .index⟩
  path _ _ i := .look (.nil i)

/-- the token at hand, which the cursor passes -/
def take : Step Token where
  run ts _ i :=
    match ts[i]? with
    | some t => ⟨[.look i, .take i], i + 1, .ok t⟩
    | none => ⟨[.look i], i, .error .index⟩
  path ts _ i := by
    split
    · exact .look (.take (.nil _))
    · exact .look (.nil i)

/-- the place of the cursor -/
def here : Step Nat where
  run _ _ i := ⟨[], i, .ok i⟩
  path _ _ i := .nil i

/-- a turn of a loop that began at `start` is over -/
def turned (l : Loop) (start : Nat) : Step Unit where
  run _ _ i := ⟨[.turn l start i], i, .ok ()⟩
  path _ _ i := .turn l start (.nil i)

/-- the reader `r`, whose work is `x` -/
def call (r : Reader) (x : Step α) : Step α where
  run ts active i := (x.run ts (⟨r, i⟩ :: active) i).behind [.call ⟨r, i⟩ active]
  path ts active i := .call r active (x.path ts _ i)

end

end Gemfile.Cursor
