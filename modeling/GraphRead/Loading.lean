import GraphRead.Catalog.Definition
import GraphRead.Settings
import GraphRead.Yaml.Reader

/-!
# Loading settings and schema definitions

Settings and schema definitions are kept in YAML files. The content of a file is
`none` when the file does not exist.
-/

namespace GraphRead

/-- The settings in a file, which have to be valid. -/
def Settings.ofFile : (content : Option String) → Except SettingsError Settings
  | none => .error .missingFile
  | some text =>
    match (Yaml.parse? text).bind (Settings.read? ·.whole) with
    | none => .error .malformedFile
    | some settings => settings.validated

/-- The schema definition in the file at a path. -/
def SchemaDefinition.ofFile (path : String) :
    (content : Option String) → Except SchemaError SchemaDefinition
  | none => .error (.missingFile path)
  | some text =>
    match (Yaml.parse? text).bind (SchemaDefinition.read? ·.whole) with
    | none => .error .malformedFile
    | some definition => .ok definition

end GraphRead
