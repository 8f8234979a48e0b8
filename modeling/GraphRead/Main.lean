import GraphRead.CommandLine

/-!
# The program

Reads the environment and the named files, and hands them to the command line.
-/

namespace GraphRead

/-- The words of a call, for a call that makes no sense. -/
def usage : String :=
  "Usage: graph-read --schema <SCHEMA> --node <NODE> [--request <REQUEST>] [--config <CONFIG>]\n"

/-- The settings that the environment can give. -/
def settingNames : List String :=
  ["INDENT_WIDTH", "PARAM_PREFIX", "VARIABLE_PREFIX", "VALUE_PREFIX", "MAX_FILTER_DEPTH"].map
    Settings.variableName

/-- The content of a file, if it can be read. -/
def readFile? (path : String) : IO (Option String) :=
  try
    let text ← IO.FS.readFile path
    return some text
  catch _ => return none

/-- The given names with what is found under them. -/
def found (find : String → IO (Option String)) (names : List String) :
    IO (List (String × String)) := do
  let pairs ← names.mapM fun name => do return (name, ← find name)
  return pairs.filterMap fun (name, text) => text.map (name, ·)

end GraphRead

open GraphRead in
/-- Runs the command on its arguments. -/
def main (arguments : List String) : IO UInt32 := do
  let environment ← found (IO.getEnv ·) settingNames
  let files ← found readFile? (CommandLine.filesNamed arguments)
  let outcome := CommandLine.run ⟨(environment.lookup ·), (files.lookup ·)⟩ arguments
  IO.print outcome.output
  IO.eprint (outcome.complaint?.getD usage)
  return outcome.code.toUInt32
