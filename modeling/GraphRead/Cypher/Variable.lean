import GraphRead.Json.Basic

/-!
# Variables and parameters

A variable stands for a graph element or another value of a query. It has an
identity of its own, so that two variables with the same labels are different;
its name is fixed beforehand or chosen when the query is rendered. A parameter
carries a value into a query without being part of its text.
-/

namespace GraphRead

/-- What a variable stands for. -/
inductive VariableKind where
  | node
  | relationship
  | value
deriving DecidableEq, Repr

/-- A variable of a query. Variables are the same only if their identities are. -/
structure Variable where
  identity : Nat
  kind : VariableKind
  /-- The fixed name, if there is one. -/
  name : Option String
  /-- The labels of a node, or the type of a relationship. -/
  labels : List String
deriving DecidableEq, Repr

/-- A value that is bound to a name when the query is rendered. -/
structure Param where
  identity : Nat
  value : Json
deriving DecidableEq, Repr

namespace Variable

/-- A node whose name is chosen later. -/
def node (identity : Nat) (labels : List String) : Variable := ⟨identity, .node, none, labels⟩

/-- A node with a fixed name. -/
def namedNode (identity : Nat) (name : String) (labels : List String) : Variable :=
  ⟨identity, .node, some name, labels⟩

/-- A relationship whose name is chosen later. -/
def relationship (identity : Nat) (type : String) : Variable :=
  ⟨identity, .relationship, none, [type]⟩

/-- Another value whose name is chosen later. -/
def value (identity : Nat) : Variable := ⟨identity, .value, none, []⟩

/-- Another value with a fixed name. -/
def named (identity : Nat) (name : String) : Variable := ⟨identity, .value, some name, []⟩

/-- The type of a relationship variable. -/
def relationshipType? (v : Variable) : Option String :=
  match v.kind with
  | .relationship => v.labels.head?
  | _ => none

end Variable

/-- A computation that needs identities no one has used before. -/
abbrev Fresh := StateM Nat

namespace Fresh

/-- The next unused identity. -/
def identity : Fresh Nat := modifyGet fun next => (next, next + 1)

/-- A new node. -/
def node (labels : List String) : Fresh Variable := return .node (← identity) labels

/-- A new relationship. -/
def relationship (type : String) : Fresh Variable := return .relationship (← identity) type

/-- A new value. -/
def value : Fresh Variable := return .value (← identity)

/-- A new parameter. -/
def param (value : Json) : Fresh Param := return ⟨← identity, value⟩

end Fresh

end GraphRead
