import GraphRead.Catalog.Field

/-!
# Schemas

A schema is a registry of nodes, at most one of each name. It is consistent if
the fields of every node have different names and every relationship leads to a
registered node.
-/

namespace GraphRead

/-- Why a schema is refused, or a node not found in it. -/
inductive SchemaError where
  | unknownNode (node : String)
  | unknownTarget (node field target : String)
  | duplicateField (node field : String)
  | duplicateNode (node : String)
  | ambiguousKind (node field : String)
  | missingFile (path : String)
  | malformedFile
deriving DecidableEq, Repr

/-- The wording of a schema error. What is wrong with a malformed file is not part of the text. -/
def SchemaError.message : SchemaError → String
  | .unknownNode node => "No node descriptor found for `" ++ node ++ "`"
  | .unknownTarget node field target =>
    "Relationship field `" ++ node ++ "." ++ field ++ "` targets unknown node `" ++ target ++ "`"
  | .duplicateField node field =>
    "Field `" ++ node ++ "." ++ field ++ "` is defined more than once"
  | .duplicateNode node => "Node `" ++ node ++ "` is defined more than once"
  | .ambiguousKind node field =>
    "Field `" ++ node ++ "." ++ field ++ "` must declare exactly one of `type` or `relationship`"
  | .missingFile path =>
    "Failed to read configuration file: " ++ path ++ ": No such file or directory (os error 2)"
  | .malformedFile => "Failed to parse configuration"

/-- A registry of nodes, in the order in which they were first inserted. -/
structure Schema where
  nodes : List Node

namespace Schema

/-- The schema without nodes. -/
def empty : Schema := ⟨[]⟩

/-- The names of the registered nodes. -/
def names (schema : Schema) : List String := schema.nodes.map (·.name)

/-- Whether a node of the name is registered. -/
def contains (schema : Schema) (name : String) : Bool := name ∈ schema.names

/-- The registered node of a name. -/
def node? (schema : Schema) (name : String) : Option Node := schema.nodes.find? (·.name = name)

/-- The registered node of a name, or an error. -/
def node (schema : Schema) (name : String) : Except SchemaError Node :=
  match schema.node? name with
  | some node => .ok node
  | none => .error (.unknownNode name)

/-- Registers a node in place of the one of the same name, if there is one. -/
def insert (schema : Schema) (node : Node) : Schema :=
  if schema.contains node.name then
    ⟨schema.nodes.map fun other => if other.name = node.name then node else other⟩
  else ⟨schema.nodes ++ [node]⟩

/-- The fields of a node have different names and lead to registered nodes. The names in `seen`
belong to the fields before them. -/
def checkFields (schema : Schema) (node : String) (seen : List String) :
    List Field → Except SchemaError Unit
  | [] => .ok ()
  | field :: rest =>
    if field.name ∈ seen then .error (.duplicateField node field.name)
    else
      match field.relationship? with
      | some relationship =>
        if schema.contains relationship.target then
          checkFields schema node (field.name :: seen) rest
        else .error (.unknownTarget node field.name relationship.target)
      | none => checkFields schema node (field.name :: seen) rest

/-- Every node is consistent. -/
def checkNodes (schema : Schema) : List Node → Except SchemaError Unit
  | [] => .ok ()
  | node :: rest => do
    checkFields schema node.name [] node.fields
    checkNodes schema rest

/-- Whether the schema is consistent, or what is first found wrong with it. -/
def validate (schema : Schema) : Except SchemaError Unit := checkNodes schema schema.nodes

/-- Registers nodes of different names. -/
def insertAll (schema : Schema) : List Node → Except SchemaError Schema
  | [] => .ok schema
  | node :: rest =>
    if schema.contains node.name then .error (.duplicateNode node.name)
    else insertAll (schema.insert node) rest

/-- The schema of nodes that have different names and fit together. -/
def ofNodes (nodes : List Node) : Except SchemaError Schema := do
  let schema ← insertAll empty nodes
  schema.validate
  return schema

end Schema

end GraphRead
