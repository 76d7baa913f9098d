import Gemfile.CommandLine

/-!
# The program

Reads the files and variables that a run needs, makes the run, and writes what it asks for.  The
program asks no interpreter for its version: where a file wants one, it has to be set.
-/

namespace Gemfile.Program

def nodeAt (p : Path) : IO (Option Files.Node) := do
  try
    return some (.file (Files.decode (← IO.FS.readBinFile p.text)))
  catch e =>
    match e with
    | .noFileOrDirectory .. => return none
    | .invalidArgument .. => return none
    | .inappropriateType .. => return some .directory
    | e => throw e

/-- what stands at the places that a path passes -/
def entriesAt (p : Path) : IO Files := do
  let found ← p.beginnings.mapM fun q => do
    return (← nodeAt q).map fun node => (Files.place q, node)
  return found.filterMap id

/-- the variables that settings are read from -/
def environment : IO (List (String × String)) := do
  let found ← Settings.names.mapM fun n => do
    let name := (Settings.variablePrefix ++ n.1).toUpper
    return (← IO.getEnv name).map fun value => (name, value)
  return found.filterMap id

def filesFor (s : Settings) : IO Files := do
  let target ← entriesAt s.target
  match s.outputFile with
  | none => return target
  | some p => return target ++ (← entriesAt p)

/-- writes the output file, if the run has changed it -/
def save (s : Settings) (before after : Files) : IO Unit :=
  match s.outputFile with
  | none => return
  | some p =>
    match after.contents? p with
    | some text => if before.contents? p = some text then return else IO.FS.writeFile p.text text
    | none => return

def report (r : CommandLine.Run) : IO UInt32 := do
  for e in r.log do
    IO.eprintln e.line
  IO.print r.output
  match r.ending with
  | .exit code => return code.toUInt32
  | .refused _ => return 2
  | .escaped _ =>
    IO.eprintln "the file has values or is in a place that cannot be worked with"
    return 1

def run (args : List String) : IO UInt32 := do
  let surroundings : Surroundings :=
    { environment := ← environment, probe := .absent, directory := (← IO.currentDir).toString }
  match Settings.read args surroundings.environment with
  | .error _ =>
    IO.eprintln "the settings cannot be read"
    return 2
  | .ok s =>
    let files ← filesFor s
    let r := CommandLine.run args surroundings ⟨files, .standard, []⟩
    save s files r.world.files
    report r

end Gemfile.Program

def main (args : List String) : IO UInt32 := Gemfile.Program.run args
