import Gemfile.Log
import Gemfile.Path
import Gemfile.Interpreter
import Gemfile.Text.CodePoint

/-!
# Settings of the command line

* `Settings`         what a run of the command line is asked to do
* `Settings.Name`    the names of the settings
* `Settings.Fault`   why no settings can be had
-/

namespace Gemfile

/-- what is written about an evaluated file -/
inductive Format where
  | json
  | dot
deriving DecidableEq

structure Settings where
  target : Path
  /-- the excluded groups; one that is no `String` is the name of no group -/
  without : List Text.Codes
  force : Bool
  logLevel : String
  outputFile : Option Path
  outputFormat : Format
  rubyVersion : Option String
  rubyEngine : String
  rubyEngineVersion : Option String
  version : Bool

namespace Settings

def standard : Settings :=
  { target := ⟨0, ["Gemfile"]⟩
    without := []
    force := false
    logLevel := "info"
    outputFile := none
    outputFormat := .json
    rubyVersion := none
    rubyEngine := nativePlatform
    rubyEngineVersion := none
    version := false }

def interpreter (s : Settings) : Option Interpreter :=
  s.rubyVersion.map fun v => ⟨v, s.rubyEngine, s.rubyEngineVersion⟩

def level (s : Settings) : Level := Level.ofText s.logLevel

inductive Name where
  | target
  | without
  | force
  | logLevel
  | outputFile
  | outputFormat
  | rubyVersion
  | rubyEngine
  | rubyEngineVersion
  | version
deriving DecidableEq

def names : List (String × Name) :=
  [("target", .target), ("without", .without), ("force", .force), ("log_level", .logLevel),
   ("output_file", .outputFile), ("output_format", .outputFormat),
   ("ruby_version", .rubyVersion), ("ruby_engine", .rubyEngine),
   ("ruby_engine_version", .rubyEngineVersion), ("version", .version)]

/-- a setting that is switched on or off and takes no value -/
def isFlag : Name → Bool
  | .force | .version => true
  | _ => false

inductive Fault where
  | usage
  | unreadable
  | invalid
deriving DecidableEq

end Settings

end Gemfile
