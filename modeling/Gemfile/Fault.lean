import Gemfile.Path
import Gemfile.Requirement
import Gemfile.Interpreter
import Gemfile.Statement
import Gemfile.SyntaxFault

/-!
# Faults

Why an evaluation stops.  The first constructors are the faults of a dependency file, which have a
message; the others are values, files and callers that the evaluation cannot go on with.

* `Fault.message?`   the message of a fault of the file
* `Fault.located`    a requirement fault with the place of its statement
-/

namespace Gemfile

/-- a line of a file -/
structure Place where
  file : String
  line : Nat
deriving DecidableEq

def Place.text (p : Place) : String := p.file ++ ":" ++ p.line.repr

/-- a statement with arguments, options or a block that it does not take -/
inductive Misuse where
  | noBlock (kind : Statement.Kind)
  | gemWithoutName
  | groupWithoutNames
  | notOnePlatform (kind : Statement.Kind)
  | notOneVersion
  | notOneUrl
deriving DecidableEq

def Misuse.message : Misuse → String
  | .noBlock kind => "`" ++ kind.name ++ "' requires a block"
  | .gemWithoutName => "`gem' requires a gem name"
  | .groupWithoutNames => "`group' requires one or more group names"
  | .notOnePlatform kind => "`" ++ kind.name ++ "' requires exactly one platform"
  | .notOneVersion => "`ruby' requires exactly one version"
  | .notOneUrl => "`source' requires exactly one URL"

/-- what a value was needed for and is not -/
inductive ValueFault where
  /-- the name of an entry -/
  | notScalar
  /-- something to run through -/
  | notElements
  /-- a path -/
  | notPath
  /-- names that compare with each other -/
  | notSortable
  /-- a text -/
  | notText
  /-- a value where there is none -/
  | missing
deriving DecidableEq

inductive FileFault where
  | notFound
  | isDirectory
  | notDirectory
  /-- the bytes of the file are no text -/
  | notText
  /-- the path has a NUL in it -/
  | notPath
  /-- the path or a component of it has more bytes than a path can have -/
  | tooLong
deriving DecidableEq

inductive Fault where
  | spelling (path : String) (fault : SyntaxFault)
  | undefinedStatement (name : String) (place : Place)
  | misuse (misuse : Misuse) (place : Place)
  | requirement (fault : RequirementFault) (place : Option Place)
  | engineWithoutVersion
  | otherVersion (found file : String) (required : Value)
  | otherEngine (found file : String) (required : Value)
  | interpreter (fault : InterpreterFault)
  | value (fault : ValueFault)
  | notVendored
  | file (fault : FileFault)
  /-- a caller's own block gave up -/
  | interrupted
deriving DecidableEq

namespace Fault

def message? : Fault → Option String
  | .spelling path fault => some (fault.message path)
  | .undefinedStatement name place =>
    some ("undefined statement `" ++ name ++ "' in " ++ place.text)
  | .misuse m place => some (m.message ++ " in " ++ place.text)
  | .requirement fault none => some fault.message
  | .requirement fault (some place) => some (fault.message ++ " in " ++ place.text)
  | .engineWithoutVersion =>
    some "you must specify engine_version along with the ruby engine"
  | .otherVersion found name required =>
    some ("Your Ruby version is " ++ found ++ ", but your " ++ name ++ " requires " ++
      required.text)
  | .otherEngine found name required =>
    some ("Your ruby engine is " ++ found ++ ", but your " ++ name ++ " requires " ++ required.text)
  | .interpreter fault => some fault.message
  | .value _ => none
  | .notVendored => none
  | .file _ => none
  | .interrupted => none

def located (place : Place) : Fault → Fault
  | .requirement fault _ => .requirement fault (some place)
  | f => f

end Fault

end Gemfile
