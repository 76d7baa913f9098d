import Gemfile.Text.Blank
import Gemfile.Text.DecimalDigit
import Gemfile.Text.Fields

/-!
# Versions of gems

A version is written as numbers and words between points: `1.2.3.rc1`.  Its numeric segments in
front of the first word are its release, of which the first three count; from the first word on the
segments make up its prerelease.  A hyphen announces a prerelease too: it is read as the word `pre`.

* `wellFormed cs`   the spelling of versions
* `segments cs`     the numbers and words of a spelling, in order
* `Version.read? cs`   the version spelled by `cs`, which may have blanks around it
* `Version.text v`     the canonical spelling: three numbers, a hyphen, the prerelease
-/

namespace Gemfile

inductive Identifier where
  | number (n : Nat)
  | word (w : List Char)
deriving DecidableEq

def Identifier.chars : Identifier → List Char
  | .number n => n.repr.toList
  | .word w => w

structure Version where
  major : Nat
  minor : Nat
  patch : Nat
  prerelease : List Identifier
deriving DecidableEq

namespace Version

/-- at least one character, and all of the class `p` -/
def allOf (p : Char → Bool) (cs : List Char) : Bool := !cs.isEmpty && cs.all p

/-- numbers and words between points, a number first -/
def wellFormedRelease (cs : List Char) : Bool :=
  match Text.fields '.' cs with
  | [] => false
  | f :: fs => allOf Char.isDigit f && fs.all (allOf Char.isAlphanum)

/-- what may stand behind the first hyphen -/
def wellFormedSuffix (cs : List Char) : Bool :=
  (Text.fields '.' cs).all (allOf fun c => c.isAlphanum || c == '-')

def wellFormed (cs : List Char) : Bool :=
  wellFormedRelease (cs.takeWhile (· != '-')) &&
    match cs.dropWhile (· != '-') with
    | [] => true
    | _ :: suffix => wellFormedSuffix suffix

/-- the classes of character that a segment is made of -/
inductive Class where
  | digit
  | letter
  | other
deriving DecidableEq

def classOf (c : Char) : Class :=
  if c.isDigit then .digit else if c.isAlpha then .letter else .other

/-- the maximal rows of characters of one class -/
def rows : List Char → List (Class × List Char)
  | [] => []
  | c :: cs =>
    match rows cs with
    | [] => [(classOf c, [c])]
    | (k, w) :: rest =>
      if k = classOf c then (k, c :: w) :: rest else (classOf c, [c]) :: (k, w) :: rest

def identifier? : Class × List Char → Option Identifier
  | (.digit, w) => some (.number (Text.numeral w))
  | (.letter, w) => some (.word w)
  | (.other, _) => none

/-- the spelling with each hyphen as the word `pre` -/
def expandHyphens (cs : List Char) : List Char :=
  cs.flatMap fun c => if c = '-' then ['.', 'p', 'r', 'e', '.'] else [c]

def segments (cs : List Char) : List Identifier := (rows (expandHyphens cs)).filterMap identifier?

/-- the numbers in front of the first word -/
def releaseOf : List Identifier → List Nat
  | .number n :: rest => n :: releaseOf rest
  | _ => []

/-- the segments from the first word on -/
def prereleaseOf : List Identifier → List Identifier
  | .number _ :: rest => prereleaseOf rest
  | rest => rest

def ofRelease (release : List Nat) (prerelease : List Identifier) : Version :=
  ⟨release.getD 0 0, release.getD 1 0, release.getD 2 0, prerelease⟩

def ofSegments (ss : List Identifier) : Version := ofRelease (releaseOf ss) (prereleaseOf ss)

def read? (cs : List Char) : Option Version :=
  let cs := Text.strip cs
  if wellFormed cs then some (ofSegments (segments cs)) else none

def isPrerelease (v : Version) : Bool := !v.prerelease.isEmpty

def release (v : Version) : Version := { v with prerelease := [] }

def releaseChars (v : Version) : List Char :=
  v.major.repr.toList ++ '.' :: v.minor.repr.toList ++ '.' :: v.patch.repr.toList

def chars (v : Version) : List Char :=
  if v.isPrerelease then
    v.releaseChars ++ '-' :: Text.joined '.' (v.prerelease.map Identifier.chars)
  else v.releaseChars

def text (v : Version) : String := String.ofList v.chars

theorem releaseOf_number (n : Nat) (ss : List Identifier) :
    releaseOf (.number n :: ss) = n :: releaseOf ss := rfl
theorem prereleaseOf_number (n : Nat) (ss : List Identifier) :
    prereleaseOf (.number n :: ss) = prereleaseOf ss := rfl

theorem release_append_prerelease (ss : List Identifier) :
    (releaseOf ss).map Identifier.number ++ prereleaseOf ss = ss := by
  induction ss with
  | nil => rfl
  | cons s ss ih =>
    cases s with
    | number n => rw [releaseOf_number, prereleaseOf_number, List.map_cons, List.cons_append, ih]
    | word w => rfl

end Version

end Gemfile
