import GraphRead.Json.Printer
import GraphRead.Json.Part
import GraphRead.Json.Reader
import GraphRead.Loading
import GraphRead.Read.Plan

/-!
# The command line

The command reads a schema and a request and writes the query and its
parameters. Everything it depends on is handed in, so that an outcome is a
function of the arguments, the environment and the files.
-/

namespace GraphRead

/-- What the arguments of the command ask for. -/
structure Invocation where
  /-- The path of the schema file. -/
  schema : String
  /-- The kind of node to read. -/
  node : String
  /-- The request, or the path of its file after an at sign. -/
  request : String
  /-- The path of the settings file; without one the environment gives the settings. -/
  settings : Option String
deriving DecidableEq, Repr

/-- The environment variables and the files that the command can see. -/
structure Surroundings where
  environment : String → Option String
  file : String → Option String

/-- How the command ends. -/
inductive Outcome where
  /-- The text that is written. -/
  | success (output : String)
  /-- The complaint that is written. -/
  | failure (report : String)
  /-- The arguments make no sense. -/
  | badUsage
deriving DecidableEq, Repr

/-- Why the command fails. -/
inductive CommandError where
  | settings (error : SettingsError)
  | schema (error : SchemaError)
  | missingRequest (path : String)
  | malformedRequest
  | read (error : ReadError)

namespace Invocation

/-- The options of the command. -/
def options : List String := ["schema", "node", "request", "config"]

/-- The name of an option, and its value if that is part of the same argument. -/
def option? (argument : String) : Option (String × Option String) :=
  match argument.toList with
  | '-' :: '-' :: chars =>
    let name := String.ofList (chars.takeWhile (· ≠ '='))
    let value :=
      match chars.dropWhile (· ≠ '=') with
      | [] => none
      | _ :: value => some (String.ofList value)
    if name ∈ options then some (name, value) else none
  | _ => none

/-- Whether an argument can be the value of the option before it. A dash starts an option unless it
stands alone. -/
def isValue (argument : String) : Bool :=
  match argument.toList with
  | '-' :: _ :: _ => false
  | _ => true

/-- The options of the arguments with their values, in order. -/
def collect? : List String → Option (List (String × String))
  | [] => some []
  | argument :: [] =>
    if argument = "--" then some []
    else
      match option? argument with
      | some (name, some value) => some [(name, value)]
      | _ => none
  | argument :: next :: rest =>
    match option? argument with
    | some (name, some value) => (collect? (next :: rest)).map ((name, value) :: ·)
    | some (name, none) =>
      if isValue next then (collect? rest).map ((name, next) :: ·) else none
    | none => none

/-- The invocation of the arguments. Each option is given at most once, and paths are not empty. -/
def ofArguments? (arguments : List String) : Option Invocation := do
  let given ← collect? arguments
  let option ← Document.keyed options given
  let schema ← option "schema"
  let node ← option "node"
  if schema.isEmpty ∨ option "config" = some "" then none
  return ⟨schema, node, (option "request").getD "\x7b\x7d", option "config"⟩

end Invocation

namespace CommandError

/-- The complaint about an error. A cause that is part of the wording of an error is told again
after it, and a complaint that ends in details of a format is left open. -/
def report : CommandError → String
  | .settings error =>
    match error with
    | .notCount _ _ cause => "Error: " ++ error.message ++ ": " ++ cause.message ++ "\n"
    | .missingFile => "Error: " ++ error.message ++ ": " ++ missingFileMessage ++ "\n"
    | .malformedFile => "Error: " ++ error.message
    | .outOfRange _ => "Error: " ++ error.message
    | _ => "Error: " ++ error.message ++ "\n"
  | .schema error =>
    match error with
    | .malformedFile => "Error: " ++ error.message
    | _ => "Error: " ++ error.message ++ "\n"
  | .missingRequest path =>
    "Error: reading request file " ++ path ++ ": " ++ missingFileMessage ++ "\n"
  | .malformedRequest => "Error: parsing read request JSON"
  | .read error => "Error: " ++ error.message ++ "\n"

end CommandError

namespace CommandLine

/-- The settings of an invocation. -/
def settings (surroundings : Surroundings) (path : Option String) :
    Except SettingsError Settings :=
  match path with
  | some path => Settings.ofFile (surroundings.file path)
  | none => Settings.ofEnvironment surroundings.environment

/-- The schema in the file at a path. -/
def schema (surroundings : Surroundings) (path : String) : Except SchemaError Schema := do
  let definition ← SchemaDefinition.ofFile path (surroundings.file path)
  definition.resolve

/-- The text of a request, from a file if an at sign stands before the path. -/
def requestText (surroundings : Surroundings) (argument : String) : Except CommandError String :=
  match argument.toList with
  | '@' :: path =>
    match surroundings.file (String.ofList path) with
    | some text => .ok text
    | none => .error (.missingRequest (String.ofList path))
  | _ => .ok argument

/-- The request of an argument. -/
def request (surroundings : Surroundings) (argument : String) : Except CommandError Request := do
  let text ← requestText surroundings argument
  match (Json.Source.parse? text).bind (Request.read? ·.whole) with
  | some request => .ok request
  | none => .error .malformedRequest

/-- The query of an invocation. Settings, schema, request and read are checked in this order. -/
def query (surroundings : Surroundings) (invocation : Invocation) : Except CommandError Query := do
  let settings ← (settings surroundings invocation.settings).mapError .settings
  let schema ← (schema surroundings invocation.schema).mapError .schema
  let request ← request surroundings invocation.request
  (Read.query schema invocation.node request settings).mapError .read

/-- A query with its parameters below it. -/
def output (query : Query) : String :=
  query.text ++ "\n" ++ (Json.object query.params).pretty ++ "\n"

/-- The outcome of the command. -/
def run (surroundings : Surroundings) (arguments : List String) : Outcome :=
  match Invocation.ofArguments? arguments with
  | none => .badUsage
  | some invocation =>
    match query surroundings invocation with
    | .ok query => .success (output query)
    | .error error => .failure error.report

/-- The files that the arguments name. -/
def filesNamed (arguments : List String) : List String :=
  match Invocation.ofArguments? arguments with
  | none => []
  | some invocation =>
    invocation.schema :: invocation.settings.toList
      ++ match invocation.request.toList with
        | '@' :: path => [String.ofList path]
        | _ => []

end CommandLine

namespace Outcome

/-- The exit code of an outcome. -/
def code : Outcome → Nat
  | success _ => 0
  | failure _ => 1
  | badUsage => 2

/-- What is written to the standard output. -/
def output : Outcome → String
  | success output => output
  | _ => ""

/-- What is written to the standard error output, if that is fixed. -/
def complaint? : Outcome → Option String
  | success _ => some ""
  | failure report => some report
  | badUsage => none

end Outcome

end GraphRead
