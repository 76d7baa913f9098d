import Gemfile.Fault
import Gemfile.Text.LineBreak

/-!
# Files

Files and directories by the components that lead to them from the working directory; `..` and `/`
in front lead out of it.  A directory exists if it is listed or holds something.

* `Files.find`    where a path leads
* `Files.read`    the text of a file, with its line breaks unified
* `Files.has`     a path leads to something, if that can be told
* `Files.write`   the files with one more, or with new contents of one
* `Files.add`     the files with something more, in whatever directory
-/

namespace Gemfile

inductive Files.Node where
  /-- a file with its text, `none` if its bytes are no text -/
  | file (text : Option String)
  | directory
deriving DecidableEq

abbrev Files := List (List String × Files.Node)

namespace Files

/-- the text that some bytes encode -/
def decode (bytes : ByteArray) : Option String := String.fromUTF8? bytes

/-- the directory above the working directory, or the one at the root of all paths -/
def isAnchor (place : List String) : Bool := place.all (· == "..") || place == ["/"]

def node? (t : Files) (place : List String) : Option Node :=
  if isAnchor place then some .directory
  else
    match t.lookup place with
    | some n => some n
    | none => if t.any fun e => place.isPrefixOf e.1 then some .directory else none

/-- the directory that a directory is in -/
def parent (place : List String) : List String :=
  if place == ["/"] then place
  else if place.all (· == "..") then place ++ [".."]
  else place.dropLast

/-- where one component leads from a directory -/
def step (place : List String) (c : String) : List String :=
  if c = ".." then parent place else place ++ [c]

def start (p : Path) : List String := if p.root = 0 then [] else ["/"]

/-- the most bytes that a component of a path can have, and those of a whole path -/
def longestName : Nat := 255
def longestPath : Nat := 4095

/-- where some components lead from a place -/
def walk (t : Files) (place : List String) : List String → Except FileFault (List String)
  | [] => .ok place
  | c :: cs =>
    match node? t place with
    | none => .error .notFound
    | some (.file _) => .error .notDirectory
    | some .directory =>
      if longestName < c.utf8ByteSize then .error .tooLong else walk t (step place c) cs

def find (t : Files) (p : Path) : Except FileFault (List String) :=
  if p.text.toList.contains '\x00' then .error .notPath
  else if longestPath < p.text.utf8ByteSize then .error .tooLong
  else walk t (start p) p.parts

def read (t : Files) (p : Path) : Except FileFault String := do
  match node? t (← t.find p) with
  | none => throw .notFound
  | some .directory => throw .isDirectory
  | some (.file none) => throw .notText
  | some (.file (some text)) => return String.ofList (Text.unified text.toList)

def has (t : Files) (p : Path) : Except FileFault Bool :=
  match t.find p with
  | .error .tooLong => .error .tooLong
  | .error _ => .ok false
  | .ok place => .ok (node? t place).isSome

def put (t : Files) (place : List String) (text : String) : Files :=
  (place, .file (some text)) :: t.filter fun e => e.1 != place

def write (t : Files) (p : Path) (text : String) : Except FileFault Files := do
  let place ← t.find p
  match node? t place with
  | some .directory => throw .isDirectory
  | _ => return t.put place text

/-- the place of a path that passes directories alone -/
def place (p : Path) : List String := p.parts.foldl step (start p)

def add (t : Files) (p : Path) (n : Node) : Files :=
  let missing := (p.beginnings.dropLast.map place).filter fun q => (node? t q).isNone
  (place p, n) :: missing.map (fun q => (q, .directory)) ++ t

/-- the text of a file as it is -/
def contents? (t : Files) (p : Path) : Option String :=
  match t.find p with
  | .error _ => none
  | .ok place =>
    match node? t place with
    | some (.file text) => text
    | _ => none

end Files

end Gemfile
