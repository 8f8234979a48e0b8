import GraphRead.Document
import GraphRead.Text.Identifier

/-!
# Settings

The settings of a query: how blocks are indented, from which words names are
generated, and how deeply filters may be nested. They are read from a document
or from environment variables and then validated.
-/

namespace GraphRead

/-- What rendering a query depends on. -/
structure RenderOptions where
  /-- Blanks per level of indentation. -/
  indentWidth : Nat := 4
  /-- The word from which parameter names are generated. -/
  paramPrefix : String := "param"
  /-- The word from which names of nodes and relationships are generated. -/
  variablePrefix : String := "this"
  /-- The word from which names of other values are generated. -/
  valuePrefix : String := "var"
deriving DecidableEq, Repr

/-- The settings of a read. -/
structure Settings extends RenderOptions where
  /-- How deeply filters may be nested. -/
  maxFilterDepth : Nat := 32
deriving DecidableEq, Repr

/-- Why a text is no count. -/
inductive CountError where
  | empty
  | invalidDigit
  | tooLarge
deriving DecidableEq, Repr

/-- The wording of a count error. -/
def CountError.message : CountError → String
  | .empty => "cannot parse integer from empty string"
  | .invalidDigit => "invalid digit found in string"
  | .tooLarge => "number too large to fit in target type"

/-- The reason why a file that does not exist cannot be read. -/
def missingFileMessage : String := "No such file or directory (os error 2)"

/-- Why settings are refused. -/
inductive SettingsError where
  /-- An environment variable does not hold a count. -/
  | notCount (source value : String) (cause : CountError)
  /-- The settings file does not exist. -/
  | missingFile
  /-- The settings file does not hold settings. -/
  | malformedFile
  /-- Fields out of their range, each with what is required of it, sorted by field. -/
  | outOfRange (violations : List (String × List String))
  /-- A prefix is no plain identifier. -/
  | notIdentifier (field value : String)
  /-- A prefix ends in a digit. -/
  | trailingDigit (field value : String)
deriving DecidableEq, Repr

/-- The wording of a settings error. What a malformed file or a range violation comes down to is
not part of the text. -/
def SettingsError.message : SettingsError → String
  | .notCount source value cause =>
    "Parse error for " ++ source ++ ": " ++ value ++ " - " ++ cause.message
  | .missingFile => "Parse error for yaml_file: file read failed - " ++ missingFileMessage
  | .malformedFile => "Parse error for yaml_content"
  | .outOfRange _ => "Validation error"
  | .notIdentifier field value =>
    "Invalid identifier for " ++ field ++ ": '" ++ value ++ "' (expected [A-Za-z_][A-Za-z0-9_]*)"
  | .trailingDigit field value =>
    "Prefix for " ++ field ++ " must not end in a digit: '" ++ value ++ "'"

namespace Settings

/-- What is required of a field, if it does not hold. -/
def violation (holds : Bool) (field requirement : String) : List (String × List String) :=
  if holds then [] else [(field, [requirement])]

/-- The fields out of their range, sorted by field. -/
def violations (settings : Settings) : List (String × List String) :=
  violation (settings.indentWidth ≤ 16) "indent_width" "Indent width must be at most 16"
    ++ violation (1 ≤ settings.maxFilterDepth && settings.maxFilterDepth ≤ 1024)
      "max_filter_depth" "Max filter depth must be between 1 and 1024"
    ++ violation (!settings.paramPrefix.isEmpty) "param_prefix" "Parameter prefix cannot be empty"
    ++ violation (!settings.valuePrefix.isEmpty) "value_prefix" "Value prefix cannot be empty"
    ++ violation (!settings.variablePrefix.isEmpty) "variable_prefix"
      "Variable prefix cannot be empty"

/-- Whether a text ends in a decimal digit. -/
def endsInDigit (text : String) : Bool :=
  match text.toList.getLast? with
  | some c => c.isDigit
  | none => false

/-- A prefix has to be a plain identifier that does not end in a digit. -/
def checkPrefix (field value : String) : Except SettingsError Unit :=
  if !Identifier.isPlain value then .error (.notIdentifier field value)
  else if endsInDigit value then .error (.trailingDigit field value)
  else .ok ()

/-- Settings are valid if every field is in its range and every prefix is usable. -/
def validate (settings : Settings) : Except SettingsError Unit := do
  let violations := settings.violations
  if violations.isEmpty then
    checkPrefix "param_prefix" settings.paramPrefix
    checkPrefix "variable_prefix" settings.variablePrefix
    checkPrefix "value_prefix" settings.valuePrefix
  else .error (.outOfRange violations)

/-- The settings, if they are valid. -/
def validated (settings : Settings) : Except SettingsError Settings :=
  settings.validate.map fun _ => settings

/-- The keys of a settings record. -/
def keys : List String :=
  ["indent_width", "param_prefix", "variable_prefix", "value_prefix", "max_filter_depth"]

open Document in
/-- The settings of a record, every missing field at its default. -/
def read? {α : Type} [Document α] (value : α) : Option Settings := do
  let standard : Settings := {}
  let field ← record? keys value
  let indentWidth ← defaulted count? standard.indentWidth (field "indent_width")
  let paramPrefix ← defaulted text? standard.paramPrefix (field "param_prefix")
  let variablePrefix ← defaulted text? standard.variablePrefix (field "variable_prefix")
  let valuePrefix ← defaulted text? standard.valuePrefix (field "value_prefix")
  let maxFilterDepth ← defaulted count? standard.maxFilterDepth (field "max_filter_depth")
  return { indentWidth, paramPrefix, variablePrefix, valuePrefix, maxFilterDepth }

/-- The digits of a count, added to what was read before them. -/
def countDigits (soFar : Nat) : List Char → Except CountError Nat
  | [] => .ok soFar
  | c :: rest =>
    if !c.isDigit then .error .invalidDigit
    else
      let next := soFar * 10 + (c.toNat - '0'.toNat)
      if next < countBound then countDigits next rest else .error .tooLarge

/-- A count of 64 bits, with or without a plus sign. -/
def parseCount (text : String) : Except CountError Nat :=
  match text.toList with
  | [] => .error .empty
  | ['+'] => .error .invalidDigit
  | '+' :: digits => countDigits 0 digits
  | digits => countDigits 0 digits

/-- The name of the environment variable for a setting. -/
def variableName (setting : String) : String := "GRAPHQL_CYPHER_" ++ setting

/-- A count from the environment. -/
def countFrom (environment : String → Option String) (setting : String) (default : Nat) :
    Except SettingsError Nat :=
  match environment (variableName setting) with
  | none => .ok default
  | some value => (parseCount value).mapError (.notCount (variableName setting) value)

/-- The settings given by environment variables, every missing one at its default. -/
def ofEnvironment (environment : String → Option String) : Except SettingsError Settings := do
  let standard : Settings := {}
  let text (setting default : String) := (environment (variableName setting)).getD default
  let indentWidth ← countFrom environment "INDENT_WIDTH" standard.indentWidth
  let maxFilterDepth ← countFrom environment "MAX_FILTER_DEPTH" standard.maxFilterDepth
  validated
    { indentWidth
      paramPrefix := text "PARAM_PREFIX" standard.paramPrefix
      variablePrefix := text "VARIABLE_PREFIX" standard.variablePrefix
      valuePrefix := text "VALUE_PREFIX" standard.valuePrefix
      maxFilterDepth }

end Settings

end GraphRead
