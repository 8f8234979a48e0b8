import GraphRead.Cypher.Names
import GraphRead.Cypher.Tree
import GraphRead.Settings
import GraphRead.Text.Lines

/-!
# Render contexts

While a query is rendered, the context gives names to variables and parameters,
collects the parameter table, and keeps the stack of scopes with the variables
that are declared in each. A subquery opens a scope of its own that sees only
what it imports and puts a stem before its names; the body of an existence test
opens one that also sees what is around it.
-/

namespace GraphRead

/-- The clauses that may only read declared variables. -/
inductive ReadingClause where
  | returning
  | passing
  | calling
deriving DecidableEq, Repr

/-- The keyword of a reading clause. -/
def ReadingClause.keyword : ReadingClause → String
  | returning => "RETURN"
  | passing => "WITH"
  | calling => "CALL"

/-- Why a statement cannot be rendered. -/
inductive BuildError where
  | undeclared (name : String) (clause : ReadingClause)
  | emptyProjection (clause : ReadingClause)
deriving DecidableEq, Repr

/-- The wording of a build error. -/
def BuildError.message : BuildError → String
  | .undeclared name clause =>
    "Variable `" ++ name ++ "` is used by " ++ clause.keyword
      ++ " before any enclosing clause introduces it"
  | .emptyProjection clause => clause.keyword ++ " clause has no projection items"

/-- A scope: the stem of its names, the variables declared in it, and whether it also sees those of
the scope around it. -/
structure Scope where
  stem : String
  declared : List Variable
  inherits : Bool

/-- The state of rendering. -/
structure Context where
  options : RenderOptions
  names : Names
  /-- The innermost scope. -/
  scope : Scope
  /-- The scopes around it, from the inside out. -/
  enclosing : List Scope
  variableNames : List (Variable × String)
  paramNames : List (Param × String)
  /-- The parameter table in the order of binding. -/
  params : List (String × Json)
  /-- The number of bodies of subqueries and existence tests that are open. -/
  depth : Nat

/-- A step of rendering, which may fail. The context survives a failure. -/
abbrev Render := ExceptT BuildError (StateM Context)

namespace Context

/-- The context in which rendering starts. -/
def initial (options : RenderOptions) : Context :=
  ⟨options, .empty, ⟨"", [], false⟩, [], [], [], [], 0⟩

/-- The text indented by one level. -/
def indent (context : Context) (text : String) : String :=
  Text.indent text context.options.indentWidth

/-- A new name for the base, with the stem of the scope before it. -/
def allocate (base : String) : StateM Context String := do
  let context ← get
  let (name, names) := context.names.allocate (context.scope.stem ++ base)
  set { context with names }
  return name

/-- A new parameter for the value. -/
def bindValue (value : Json) : StateM Context String := do
  let name ← allocate (← get).options.paramPrefix
  modify fun context => { context with params := context.params ++ [(name, value)] }
  return name

/-- The name of a parameter, which is bound when it is first asked for. -/
def paramName (param : Param) : StateM Context String := do
  match (← get).paramNames.lookup param with
  | some name => return name
  | none =>
    let name ← bindValue param.value
    modify fun context => { context with paramNames := (param, name) :: context.paramNames }
    return name

/-- The word from which the name of a variable is made. -/
def baseFor (options : RenderOptions) (v : Variable) : String :=
  match v.name, v.kind with
  | some name, _ => name
  | none, .node => options.variablePrefix
  | none, .relationship => options.variablePrefix
  | none, .value => options.valuePrefix

/-- The name of a variable: its fixed name, or one chosen when it is first asked for. -/
def variableName (v : Variable) : StateM Context String := do
  match v.name with
  | some name => return name
  | none =>
    match (← get).variableNames.lookup v with
    | some name => return name
    | none =>
      let name ← allocate (baseFor (← get).options v)
      modify fun context => { context with variableNames := (v, name) :: context.variableNames }
      return name

/-- Declares a variable in the innermost scope. -/
def declare (v : Variable) : StateM Context Unit :=
  modify fun context =>
    { context with scope := { context.scope with declared := v :: context.scope.declared } }

/-- Declares the variables in order. -/
def declareAll : List Variable → StateM Context Unit
  | [] => return
  | v :: rest => do
    declare v
    declareAll rest

/-- Leaves only the given variables declared in the innermost scope. -/
def retain (vs : List Variable) : StateM Context Unit :=
  modify fun context => { context with scope := { context.scope with declared := vs } }

/-- Whether a variable is declared in a scope or in one around it that it sees. -/
def visible (v : Variable) (scope : Scope) : List Scope → Bool
  | [] => v ∈ scope.declared
  | outer :: rest => v ∈ scope.declared || (scope.inherits && visible v outer rest)

/-- Whether a variable is declared where rendering stands. -/
def isDeclared (context : Context) (v : Variable) : Bool :=
  visible v context.scope context.enclosing

/-- A clause may read a variable only if it is declared. -/
def require (clause : ReadingClause) (v : Variable) : Render Unit := do
  if (← get).isDeclared v then return
  else throw (.undeclared (← variableName v) clause)

/-- A clause may read variables only if all of them are declared. -/
def requireAll (clause : ReadingClause) : List Variable → Render Unit
  | [] => return
  | v :: rest => do
    require clause v
    requireAll clause rest

/-- The names of variables. -/
def variableNamesOf : List Variable → StateM Context (List String)
  | [] => return []
  | v :: rest => do
    let name ← variableName v
    let names ← variableNamesOf rest
    return name :: names

/-- Opens a scope for a body. -/
def enter (scope : Scope) (context : Context) : Context :=
  { context with
    scope, enclosing := context.scope :: context.enclosing, depth := context.depth + 1 }

/-- Closes the body and the innermost scope. -/
def leave (context : Context) : Context :=
  match context.enclosing with
  | [] => { context with depth := context.depth - 1 }
  | outer :: rest => { context with scope := outer, enclosing := rest, depth := context.depth - 1 }

/-- Renders inside a scope, which is closed again also after a failure. -/
def within {α : Type} (scope : Scope) (body : Render α) : Render α :=
  ExceptT.mk do
    modify (enter scope)
    let result ← body.run
    modify leave
    return result

/-- Renders a subquery, which sees only its imports and has a stem of its own. -/
def inChild {α : Type} (base : String) (imports : List Variable) (body : Render α) : Render α := do
  let name ← allocate base
  within ⟨Names.stemBelow name, imports, false⟩ body

/-- Renders the body of an existence test, which also sees what is around it. -/
def inNested {α : Type} (body : Render α) : Render α := do
  within ⟨(← get).scope.stem, [], true⟩ body

end Context

end GraphRead
