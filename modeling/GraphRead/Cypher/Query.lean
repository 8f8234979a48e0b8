import GraphRead.Cypher.Render

/-!
# Queries

A query is a text with a table of parameters. Every statement and every
predicate is rendered from a fresh context.
-/

namespace GraphRead

/-- A text and the parameters it refers to, in the order of binding. -/
structure Query where
  text : String
  params : List (String × Json)
deriving DecidableEq, Repr

/-- The query of a statement. -/
def Statement.build (statement : Statement) (options : RenderOptions) : Except BuildError Query :=
  let (result, context) := (statement.render.run).run (.initial options)
  result.map fun text => ⟨text, context.params⟩

/-- The query of a predicate, if it has something to say. -/
def Predicate.build (predicate : Predicate) (options : RenderOptions) :
    Except BuildError (Option Query) :=
  let (result, context) := (predicate.render.run).run (.initial options)
  result.map fun text => text.map fun text => ⟨text, context.params⟩

end GraphRead
