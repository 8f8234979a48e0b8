import GraphRead.Proofs.Rendering.Print

/-!
# Relabelling trees

Variables and parameters of a tree can be exchanged for others, and the numbers
of its pages for other numbers. If different variables stay different and keep
what their names are made from, then the events of the tree are exchanged in the
same way, and the printed text stays the same under a naming that sees the tree
through the exchange.
-/

namespace GraphRead

open Event (pages)

/-- An exchange of variables, parameters and numbers of rows, which keeps variables apart and does
not change what their names are made from. -/
structure Relabelling where
  var : Variable → Variable
  param : Param → Param
  count : UInt64 → UInt64
  injective : ∀ {v w}, var v = var w → v = w
  name : ∀ v, (var v).name = v.name
  kind : ∀ v, (var v).kind = v.kind

section Definitions

variable (f : Relabelling)

/-- The pattern of a node with its variable and its parameters exchanged. -/
def NodePattern.relabel (node : NodePattern) : NodePattern :=
  ⟨node.bound.map f.var, node.labels, node.properties.map fun (key, p) => (key, f.param p)⟩

/-- The pattern of a relationship with its variable exchanged. -/
def RelationshipPattern.relabel (relationship : RelationshipPattern) : RelationshipPattern :=
  ⟨relationship.bound.map f.var, relationship.type, relationship.direction⟩

/-- The pattern with its variables and parameters exchanged. -/
def Pattern.relabel (pattern : Pattern) : Pattern :=
  ⟨pattern.start.relabel f, pattern.hops.map fun (r, node) => (r.relabel f, node.relabel f)⟩

mutual
/-- The expression with its variables and parameters exchanged. -/
def Expr.relabel : Expr → Expr
  | .var v => .var (f.var v)
  | .property v path => .property (f.var v) path
  | .param p => .param (f.param p)
  | .literal value => .literal value
  | .apply function arguments => .apply function (Expr.relabelAll arguments)
  | .list items => .list (Expr.relabelAll items)
  | .map entries => .map (Expr.relabelEntries entries)
  | .project v entries => .project (f.var v) (MapEntry.relabelAll entries)
  | .comprehend pattern filter result =>
    .comprehend (pattern.relabel f) (Predicate.relabelOptional filter) result.relabel
termination_by structural e => e

/-- The expressions in a row, relabelled. -/
def Expr.relabelAll : List Expr → List Expr
  | [] => []
  | e :: rest => e.relabel :: Expr.relabelAll rest
termination_by structural es => es

/-- The entries of a map with their values relabelled. -/
def Expr.relabelEntries : List (String × Expr) → List (String × Expr)
  | [] => []
  | (key, e) :: rest => (key, e.relabel) :: Expr.relabelEntries rest
termination_by structural es => es

/-- The entries of a projection with their values relabelled. -/
def MapEntry.relabelAll : List MapEntry → List MapEntry
  | [] => []
  | .stored key :: rest => .stored key :: MapEntry.relabelAll rest
  | .computed key e :: rest => .computed key e.relabel :: MapEntry.relabelAll rest
termination_by structural es => es

/-- The predicate with its variables and parameters exchanged. -/
def Predicate.relabel : Predicate → Predicate
  | .compare comparison left right =>
    .compare comparison left.relabel (Expr.relabelOptional right)
  | .all parts => .all (Predicate.relabelAll parts)
  | .any parts => .any (Predicate.relabelAll parts)
  | .not part => .not part.relabel
  | .exist body => .exist body.relabel
  | .single v list filter =>
    .single (f.var v) list.relabel (Predicate.relabelOptional filter)
termination_by structural p => p

/-- The expression relabelled, if there is one. -/
def Expr.relabelOptional : Option Expr → Option Expr
  | none => none
  | some e => some e.relabel
termination_by structural e => e

/-- The predicate relabelled, if there is one. -/
def Predicate.relabelOptional : Option Predicate → Option Predicate
  | none => none
  | some p => some p.relabel
termination_by structural p => p

/-- The predicates in a row, relabelled. -/
def Predicate.relabelAll : List Predicate → List Predicate
  | [] => []
  | p :: rest => p.relabel :: Predicate.relabelAll rest
termination_by structural ps => ps

/-- The items in a row, relabelled. -/
def Item.relabelAll : List Item → List Item
  | [] => []
  | item :: rest => item.relabel :: Item.relabelAll rest
termination_by structural items => items

/-- The item with its variables and parameters exchanged. -/
def Item.relabel : Item → Item
  | .plain e => .plain e.relabel
  | .aliased e newName => .aliased e.relabel (f.var newName)
  | .named e newName => .named e.relabel newName
termination_by structural item => item

/-- The sort keys with their expressions relabelled. -/
def Statement.relabelKeys : List (Expr × SortDirection) → List (Expr × SortDirection)
  | [] => []
  | (e, direction) :: rest => (e.relabel, direction) :: Statement.relabelKeys rest
termination_by structural keys => keys

/-- The statement with everything exchanged. -/
def Statement.relabel : Statement → Statement
  | .matching optional pattern clauses =>
    .matching optional (pattern.relabel f) (Statement.relabelAll clauses)
  | .filtering parts => .filtering (Predicate.relabelAll parts)
  | .returning distinct items => .returning distinct (Item.relabelAll items)
  | .calling body imports base clauses =>
    .calling body.relabel (imports.map f.var) base (Statement.relabelAll clauses)
  | .passing distinct items clauses =>
    .passing distinct (Item.relabelAll items) (Statement.relabelAll clauses)
  | .passingAll distinct clauses => .passingAll distinct (Statement.relabelAll clauses)
  | .ordering keys => .ordering (Statement.relabelKeys keys)
  | .skipping count => .skipping (f.count count)
  | .limiting count => .limiting (f.count count)
termination_by structural s => s

/-- The clauses in a row, relabelled. -/
def Statement.relabelAll : List Statement → List Statement
  | [] => []
  | s :: rest => s.relabel :: Statement.relabelAll rest
termination_by structural ss => ss
end

end Definitions

/-- The event with everything exchanged. -/
def Event.relabel (f : Relabelling) : Event → Event
  | .name v => .name (f.var v)
  | .param p => .param (f.param p)
  | .page count => .page (f.count count)
  | .require clause v => .require clause (f.var v)
  | .reject error => .reject error
  | .declare v => .declare (f.var v)
  | .retain vs => .retain (vs.map f.var)
  | .openChild base imports => .openChild base (imports.map f.var)
  | .openNested => .openNested
  | .close => .close

/-- A relabelled tree has as many pages. -/
@[simp]
theorem Event.pages_map_relabel (f : Relabelling) (events : List Event) :
    pages (events.map (Event.relabel f)) = pages events := by
  induction events with
  | nil => rfl
  | cons event rest ih => cases event <;> simp [Event.relabel, pages, ih]

section Events

variable (f : Relabelling)

/-- The events of a relabelled node are those of the node, relabelled. -/
@[simp]
theorem NodePattern.events_relabel (node : NodePattern) :
    (node.relabel f).events = node.events.map (Event.relabel f) := by
  cases hbound : node.bound <;>
    simp [NodePattern.relabel, NodePattern.events, hbound, Function.comp_def, Event.relabel]

/-- The events of a relabelled relationship are those of the relationship, relabelled. -/
@[simp]
theorem RelationshipPattern.events_relabel (relationship : RelationshipPattern) :
    (relationship.relabel f).events = relationship.events.map (Event.relabel f) := by
  cases hbound : relationship.bound <;>
    simp [RelationshipPattern.relabel, RelationshipPattern.events, hbound, Event.relabel]

/-- The events of relabelled hops are those of the hops, relabelled. -/
@[simp]
theorem Pattern.hopEvents_relabel (hops : List (RelationshipPattern × NodePattern)) :
    Pattern.hopEvents (hops.map fun (r, node) => (r.relabel f, node.relabel f)) =
      (Pattern.hopEvents hops).map (Event.relabel f) := by
  induction hops with
  | nil => rfl
  | cons hop rest ih => simp [Pattern.hopEvents, ih]

/-- The events of a relabelled pattern are those of the pattern, relabelled. -/
@[simp]
theorem Pattern.events_relabel (pattern : Pattern) :
    (pattern.relabel f).events = pattern.events.map (Event.relabel f) := by
  simp [Pattern.relabel, Pattern.events]

/-- A relabelled pattern binds the exchanged variables. -/
@[simp]
theorem Pattern.bound_relabel (pattern : Pattern) :
    (pattern.relabel f).bound = pattern.bound.map f.var := by
  cases hstart : pattern.start.bound <;>
    simp [Pattern.relabel, Pattern.bound, NodePattern.relabel, RelationshipPattern.relabel, hstart,
      List.flatMap_map, List.map_flatMap, Option.toList_map]

/-- A relabelled item introduces the exchanged variable. -/
@[simp]
theorem Item.introduced?_relabel (item : Item) :
    (item.relabel f).introduced? = item.introduced?.map f.var := by
  cases item with
  | plain e => cases e <;> simp [Item.relabel, Expr.relabel, Item.introduced?]
  | aliased => simp [Item.relabel, Item.introduced?]
  | named => simp [Item.relabel, Item.introduced?]

/-- Relabelling items in a row relabels each. -/
@[simp]
theorem Item.relabelAll_eq_map (items : List Item) :
    Item.relabelAll f items = items.map (Item.relabel f) := by
  induction items with
  | nil => rfl
  | cons item rest ih => simp [Item.relabelAll, ih]

mutual
/-- A relabelled expression reads the exchanged variables. -/
@[simp]
theorem Expr.reads_relabel (e : Expr) : (e.relabel f).reads = e.reads.map f.var := by
  cases e with
  | var _ => rfl
  | property _ _ => rfl
  | param _ => rfl
  | literal _ => rfl
  | apply _ arguments => simp [Expr.relabel, Expr.reads, Expr.readsAll_relabel arguments]
  | list items => simp [Expr.relabel, Expr.reads, Expr.readsAll_relabel items]
  | map entries => simp [Expr.relabel, Expr.reads, Expr.readsEntries_relabel entries]
  | project _ entries => simp [Expr.relabel, Expr.reads, MapEntry.readsAll_relabel entries]
  | comprehend _ _ _ => rfl
termination_by structural e

/-- Relabelled expressions in a row read the exchanged variables. -/
theorem Expr.readsAll_relabel (es : List Expr) :
    Expr.readsAll (Expr.relabelAll f es) = (Expr.readsAll es).map f.var := by
  cases es with
  | nil => rfl
  | cons e rest =>
    simp [Expr.relabelAll, Expr.readsAll, e.reads_relabel, Expr.readsAll_relabel rest]
termination_by structural es

/-- Relabelled entries of a map read the exchanged variables. -/
theorem Expr.readsEntries_relabel (es : List (String × Expr)) :
    Expr.readsEntries (Expr.relabelEntries f es) = (Expr.readsEntries es).map f.var := by
  match es with
  | [] => rfl
  | (_, e) :: rest =>
    simp [Expr.relabelEntries, Expr.readsEntries, e.reads_relabel, Expr.readsEntries_relabel rest]
termination_by structural es

/-- Relabelled entries of a projection read the exchanged variables. -/
theorem MapEntry.readsAll_relabel (es : List MapEntry) :
    MapEntry.readsAll (MapEntry.relabelAll f es) = (MapEntry.readsAll es).map f.var := by
  match es with
  | [] => rfl
  | .stored _ :: rest =>
    simp [MapEntry.relabelAll, MapEntry.readsAll, MapEntry.readsAll_relabel rest]
  | .computed _ e :: rest =>
    simp [MapEntry.relabelAll, MapEntry.readsAll, e.reads_relabel, MapEntry.readsAll_relabel rest]
termination_by structural es
end

/-- Exchanged items introduce the exchanged variables. -/
theorem Item.introduced_relabel (items : List Item) :
    (Item.relabelAll f items).filterMap Item.introduced? =
      (items.filterMap Item.introduced?).map f.var := by
  rw [Item.relabelAll_eq_map, List.filterMap_map, List.map_filterMap]
  congr 1
  funext item
  exact item.introduced?_relabel f

mutual
/-- A relabelled statement returns the exchanged variables. -/
@[simp]
theorem Statement.returned_relabel (s : Statement) :
    (s.relabel f).returned = s.returned.map f.var := by
  cases s with
  | returning _ items =>
    rw [Statement.relabel, Statement.returned, Statement.returned, Item.introduced_relabel]
  | matching _ _ clauses =>
    simp [Statement.relabel, Statement.returned, Statement.returnedAll_relabel clauses]
  | passing _ _ clauses =>
    simp [Statement.relabel, Statement.returned, Statement.returnedAll_relabel clauses]
  | passingAll _ clauses =>
    simp [Statement.relabel, Statement.returned, Statement.returnedAll_relabel clauses]
  | calling _ _ _ clauses =>
    simp [Statement.relabel, Statement.returned, Statement.returnedAll_relabel clauses]
  | filtering _ => rfl
  | ordering _ => rfl
  | skipping _ => rfl
  | limiting _ => rfl
termination_by structural s

/-- Relabelled clauses in a row return the exchanged variables. -/
theorem Statement.returnedAll_relabel (ss : List Statement) :
    Statement.returnedAll (Statement.relabelAll f ss) = (Statement.returnedAll ss).map f.var := by
  cases ss with
  | nil => rfl
  | cons s rest =>
    simp [Statement.relabelAll, Statement.returnedAll, s.returned_relabel,
      Statement.returnedAll_relabel rest]
termination_by structural ss
end

/-- Aliases are written in the same cases, since variables are kept apart. -/
theorem Item.aliasEvents_relabel (item : Item) :
    (item.relabel f).aliasEvents = item.aliasEvents.map (Event.relabel f) := by
  match item with
  | .plain _ => rfl
  | .named _ _ => rfl
  | .aliased e newName =>
    cases e with
    | var v =>
      simp only [Item.relabel, Expr.relabel, Item.aliasEvents]
      by_cases hsame : v = newName
      · simp [hsame]
      · have hother : f.var v ≠ f.var newName := fun heq => hsame (f.injective heq)
        simp [hsame, hother, Event.relabel]
    | _ => simp [Item.relabel, Expr.relabel, Item.aliasEvents, Event.relabel]

/-- The events of a relabelled projection are those of the projection, relabelled, if this is so for
its items. -/
theorem projectionEvents_relabel {clause : ReadingClause} {items : List Item}
    (h : Item.eventsAll clause (Item.relabelAll f items) =
      (Item.eventsAll clause items).map (Event.relabel f)) :
    projectionEvents clause (Item.relabelAll f items)
        (Item.eventsAll clause (Item.relabelAll f items)) =
      (projectionEvents clause items (Item.eventsAll clause items)).map (Event.relabel f) := by
  cases items with
  | nil => rfl
  | cons item rest => exact h

mutual
/-- The events of a relabelled expression are those of the expression, relabelled. -/
theorem Expr.events_relabel (e : Expr) : (e.relabel f).events = e.events.map (Event.relabel f) := by
  cases e with
  | var _ => rfl
  | property _ _ => rfl
  | param _ => rfl
  | literal _ => rfl
  | apply _ arguments => simp [Expr.relabel, Expr.events, Expr.eventsAll_relabel arguments]
  | list items => simp [Expr.relabel, Expr.events, Expr.eventsAll_relabel items]
  | map entries => simp [Expr.relabel, Expr.events, Expr.eventsEntries_relabel entries]
  | project _ entries =>
    simp [Expr.relabel, Expr.events, MapEntry.eventsAll_relabel entries, Event.relabel]
  | comprehend pattern filter result =>
    simp [Expr.relabel, Expr.events, Predicate.eventsOptional_relabel filter,
      result.events_relabel]
termination_by structural e

/-- The events of relabelled expressions are those of the expressions, relabelled. -/
theorem Expr.eventsAll_relabel (es : List Expr) :
    Expr.eventsAll (Expr.relabelAll f es) = (Expr.eventsAll es).map (Event.relabel f) := by
  cases es with
  | nil => rfl
  | cons e rest =>
    simp [Expr.relabelAll, Expr.eventsAll, e.events_relabel, Expr.eventsAll_relabel rest]
termination_by structural es

/-- The events of relabelled entries of a map are those of the entries, relabelled. -/
theorem Expr.eventsEntries_relabel (es : List (String × Expr)) :
    Expr.eventsEntries (Expr.relabelEntries f es) =
      (Expr.eventsEntries es).map (Event.relabel f) := by
  match es with
  | [] => rfl
  | (_, e) :: rest =>
    simp [Expr.relabelEntries, Expr.eventsEntries, e.events_relabel,
      Expr.eventsEntries_relabel rest]
termination_by structural es

/-- The events of relabelled entries of a projection are those of the entries, relabelled. -/
theorem MapEntry.eventsAll_relabel (es : List MapEntry) :
    MapEntry.eventsAll (MapEntry.relabelAll f es) =
      (MapEntry.eventsAll es).map (Event.relabel f) := by
  match es with
  | [] => rfl
  | .stored _ :: rest =>
    simp [MapEntry.relabelAll, MapEntry.eventsAll, MapEntry.eventsAll_relabel rest]
  | .computed _ e :: rest =>
    simp [MapEntry.relabelAll, MapEntry.eventsAll, e.events_relabel,
      MapEntry.eventsAll_relabel rest]
termination_by structural es

/-- The events of a relabelled predicate are those of the predicate, relabelled. -/
theorem Predicate.events_relabel (p : Predicate) :
    (p.relabel f).events = p.events.map (Event.relabel f) := by
  cases p with
  | compare comparison left right =>
    cases hunary : comparison.isUnary <;>
      simp [Predicate.relabel, Predicate.events, left.events_relabel,
        Expr.eventsOptional_relabel right, hunary]
  | all parts =>
    simp [Predicate.relabel, Predicate.events, Predicate.eventsAll_relabel parts]
  | any parts =>
    simp [Predicate.relabel, Predicate.events, Predicate.eventsAll_relabel parts]
  | not part => simp [Predicate.relabel, Predicate.events, part.events_relabel]
  | exist body =>
    simp [Predicate.relabel, Predicate.events, body.events_relabel, Event.relabel]
  | single _ list filter =>
    simp [Predicate.relabel, Predicate.events, list.events_relabel,
      Predicate.eventsOptional_relabel filter, Event.relabel]
termination_by structural p

/-- The events of a relabelled expression are those of the expression, relabelled, if there is
one. -/
theorem Expr.eventsOptional_relabel (e : Option Expr) :
    Expr.eventsOptional (Expr.relabelOptional f e) =
      (Expr.eventsOptional e).map (Event.relabel f) := by
  cases e with
  | none => rfl
  | some e => exact e.events_relabel
termination_by structural e

/-- The events of a relabelled predicate are those of the predicate, relabelled, if there is one. -/
theorem Predicate.eventsOptional_relabel (p : Option Predicate) :
    Predicate.eventsOptional (Predicate.relabelOptional f p) =
      (Predicate.eventsOptional p).map (Event.relabel f) := by
  cases p with
  | none => rfl
  | some p => exact p.events_relabel
termination_by structural p

/-- The events of relabelled predicates are those of the predicates, relabelled. -/
theorem Predicate.eventsAll_relabel (ps : List Predicate) :
    Predicate.eventsAll (Predicate.relabelAll f ps) =
      (Predicate.eventsAll ps).map (Event.relabel f) := by
  cases ps with
  | nil => rfl
  | cons p rest =>
    simp [Predicate.relabelAll, Predicate.eventsAll, p.events_relabel,
      Predicate.eventsAll_relabel rest]
termination_by structural ps

/-- The events of relabelled items are those of the items, relabelled. -/
theorem Item.eventsAll_relabel (clause : ReadingClause) (items : List Item) :
    Item.eventsAll clause (Item.relabelAll f items) =
      (Item.eventsAll clause items).map (Event.relabel f) := by
  cases items with
  | nil => rfl
  | cons item rest =>
    rw [Item.relabelAll, Item.eventsAll, Item.eventsAll, item.events_relabel clause,
      Item.eventsAll_relabel clause rest, List.map_append]
termination_by structural items

/-- The events of a relabelled item are those of the item, relabelled. -/
theorem Item.events_relabel (clause : ReadingClause) (item : Item) :
    (item.relabel f).events clause = (item.events clause).map (Event.relabel f) := by
  cases item with
  | plain e =>
    have halias := Item.aliasEvents_relabel f (.plain e)
    simp only [Item.relabel] at halias
    simp [Item.relabel, Item.events, e.events_relabel, halias, Event.relabel, Function.comp_def]
  | aliased e newName =>
    have halias := Item.aliasEvents_relabel f (.aliased e newName)
    simp only [Item.relabel] at halias
    simp [Item.relabel, Item.events, e.events_relabel, halias, Event.relabel, Function.comp_def]
  | named e newName =>
    have halias := Item.aliasEvents_relabel f (.named e newName)
    simp only [Item.relabel] at halias
    simp [Item.relabel, Item.events, e.events_relabel, halias, Event.relabel, Function.comp_def]
termination_by structural item

/-- The events of relabelled sort keys are those of the keys, relabelled. -/
theorem Statement.keyEvents_relabel (keys : List (Expr × SortDirection)) :
    Statement.keyEvents (Statement.relabelKeys f keys) =
      (Statement.keyEvents keys).map (Event.relabel f) := by
  match keys with
  | [] => rfl
  | (e, _) :: rest =>
    simp [Statement.relabelKeys, Statement.keyEvents, e.events_relabel,
      Statement.keyEvents_relabel rest]
termination_by structural keys

/-- The events of a relabelled statement are its events, relabelled. -/
theorem Statement.events_relabel (s : Statement) :
    (s.relabel f).events = s.events.map (Event.relabel f) := by
  cases s with
  | matching _ pattern clauses =>
    simp [Statement.relabel, Statement.events, Statement.eventsAll_relabel clauses, Event.relabel,
      Function.comp_def]
  | filtering parts =>
    simp [Statement.relabel, Statement.events, Predicate.eventsAll_relabel parts]
  | returning _ items =>
    exact projectionEvents_relabel f (Item.eventsAll_relabel .returning items)
  | calling body imports base clauses =>
    simp [Statement.relabel, Statement.events, body.events_relabel,
      Statement.eventsAll_relabel clauses, Event.relabel, Function.comp_def]
  | passing _ items clauses =>
    have hitems := projectionEvents_relabel f (Item.eventsAll_relabel .passing items)
    rw [Statement.relabel, Statement.events, Statement.events, hitems, Item.introduced_relabel,
      Statement.eventsAll_relabel clauses, List.map_append, List.map_append]
    rfl
  | passingAll _ clauses =>
    simp [Statement.relabel, Statement.events, Statement.eventsAll_relabel clauses]
  | ordering keys =>
    simp [Statement.relabel, Statement.events, Statement.keyEvents_relabel keys]
  | skipping _ => rfl
  | limiting _ => rfl
termination_by structural s

/-- The events of relabelled clauses are those of the clauses, relabelled. -/
theorem Statement.eventsAll_relabel (ss : List Statement) :
    Statement.eventsAll (Statement.relabelAll f ss) =
      (Statement.eventsAll ss).map (Event.relabel f) := by
  cases ss with
  | nil => rfl
  | cons s rest =>
    simp [Statement.relabelAll, Statement.eventsAll, s.events_relabel,
      Statement.eventsAll_relabel rest]
termination_by structural ss
end

end Events

/-- The naming of a tree through the exchange. -/
def Naming.through (naming : Naming) (f : Relabelling) : Naming :=
  ⟨fun v => naming.var (f.var v), fun p => naming.param (f.param p), naming.page⟩

section Texts

variable (f : Relabelling) (width : Nat) (naming : Naming)

/-- Through the exchange, a variable has the name of the exchanged one. Fixed names are not
changed. -/
@[simp]
theorem Naming.name_through (v : Variable) :
    (naming.through f).name (.var v) = naming.name (.var (f.var v)) := by
  simp [Naming.name, Naming.through, f.name]

/-- A relabelled variable is printed through the exchange, if there is one. -/
theorem text_optionalFragment_relabel (bound : Option Variable) :
    (optionalFragment naming (bound.map f.var)).text =
      (optionalFragment (naming.through f) bound).text := by
  cases bound <;> simp [optionalFragment]

/-- A relabelled node is printed as the node is through the exchange. -/
theorem NodePattern.text_print_relabel (node : NodePattern) :
    ((node.relabel f).print naming).text = (node.print (naming.through f)).text := by
  have hproperties : (NodePattern.printProperties naming
      (node.properties.map fun (key, p) => (key, f.param p))).map Fragment.text =
        (NodePattern.printProperties (naming.through f) node.properties).map Fragment.text := by
    simp [NodePattern.printProperties, Naming.name, Naming.through]
  rw [NodePattern.text_print, NodePattern.text_print, NodePattern.relabel, hproperties,
    text_optionalFragment_relabel]

/-- A relabelled relationship is printed as the relationship is through the exchange. -/
theorem RelationshipPattern.text_print_relabel (relationship : RelationshipPattern) :
    ((relationship.relabel f).print naming).text =
      (relationship.print (naming.through f)).text := by
  unfold RelationshipPattern.print RelationshipPattern.relabel
  cases relationship.direction <;> simp [text_optionalFragment_relabel]

/-- Relabelled hops are printed as the hops are through the exchange. -/
theorem Pattern.text_printHops_relabel (hops : List (RelationshipPattern × NodePattern)) :
    (Pattern.printHops naming (hops.map fun (r, node) => (r.relabel f, node.relabel f))).text =
      (Pattern.printHops (naming.through f) hops).text := by
  induction hops with
  | nil => rfl
  | cons hop rest ih =>
    simp [Pattern.printHops, ih, hop.1.text_print_relabel f naming,
      hop.2.text_print_relabel f naming]

/-- A relabelled pattern is printed as the pattern is through the exchange. -/
theorem Pattern.text_print_relabel (pattern : Pattern) :
    ((pattern.relabel f).print naming).text = (pattern.print (naming.through f)).text := by
  simp [Pattern.relabel, Pattern.print, pattern.start.text_print_relabel f naming,
    Pattern.text_printHops_relabel f naming]

/-- What a relabelled item is called is printed through the exchange. -/
theorem Item.text_printAlias_relabel (item : Item) :
    ((item.relabel f).printAlias naming).text = (item.printAlias (naming.through f)).text := by
  match item with
  | .plain _ => rfl
  | .named _ _ => rfl
  | .aliased e newName =>
    cases e with
    | var v =>
      simp only [Item.relabel, Expr.relabel, Item.printAlias]
      by_cases hsame : v = newName
      · simp [hsame]
      · have hother : f.var v ≠ f.var newName := fun heq => hsame (f.injective heq)
        simp [hsame, hother]
    | _ => simp [Item.relabel, Expr.relabel, Item.printAlias]

/-- A predicate is put in parentheses in the same cases. -/
theorem negated_relabel (p : Predicate) : negated (p.relabel f) = negated p := by
  funext text
  cases p <;> rfl

mutual
/-- A relabelled expression is printed as the expression is through the exchange. -/
theorem Expr.text_print_relabel (first : Nat) (e : Expr) :
    ((e.relabel f).print width naming first).text =
      (e.print width (naming.through f) first).text := by
  cases e with
  | var _ => simp [Expr.relabel, Expr.print]
  | property _ _ => simp [Expr.relabel, Expr.print]
  | param _ => rfl
  | literal _ => rfl
  | apply _ arguments =>
    simp [Expr.relabel, Expr.print, Expr.text_printAll_relabel first arguments]
  | list items => simp [Expr.relabel, Expr.print, Expr.text_printAll_relabel first items]
  | map entries =>
    simp [Expr.relabel, Expr.print, Expr.text_printEntries_relabel first entries]
  | project _ entries =>
    simp [Expr.relabel, Expr.print, MapEntry.text_printAll_relabel first entries]
  | comprehend pattern filter result =>
    have hfilter := Predicate.text_printOptional_relabel first filter
    have hresult := result.text_print_relabel (first + pages (Predicate.eventsOptional filter))
    have hpattern := pattern.text_print_relabel f naming
    simp only [Expr.relabel, Expr.print, Predicate.eventsOptional_relabel, Event.pages_map_relabel]
    cases hleft :
        Predicate.printOptional width naming first (Predicate.relabelOptional f filter) <;>
      cases hright : Predicate.printOptional width (naming.through f) first filter <;>
      simp_all
termination_by structural e

/-- Relabelled expressions are printed as the expressions are through the exchange. -/
theorem Expr.text_printAll_relabel (first : Nat) (es : List Expr) :
    (Expr.printAll width naming first (Expr.relabelAll f es)).map Fragment.text =
      (Expr.printAll width (naming.through f) first es).map Fragment.text := by
  cases es with
  | nil => rfl
  | cons e rest =>
    simp [Expr.relabelAll, Expr.printAll, e.text_print_relabel first, Expr.events_relabel,
      Expr.text_printAll_relabel _ rest]
termination_by structural es

/-- Relabelled entries of a map are printed as the entries are through the exchange. -/
theorem Expr.text_printEntries_relabel (first : Nat) (es : List (String × Expr)) :
    (Expr.printEntries width naming first (Expr.relabelEntries f es)).map Fragment.text =
      (Expr.printEntries width (naming.through f) first es).map Fragment.text := by
  match es with
  | [] => rfl
  | (_, e) :: rest =>
    simp [Expr.relabelEntries, Expr.printEntries, e.text_print_relabel first, Expr.events_relabel,
      Expr.text_printEntries_relabel _ rest]
termination_by structural es

/-- Relabelled entries of a projection are printed as the entries are through the exchange. -/
theorem MapEntry.text_printAll_relabel (first : Nat) (es : List MapEntry) :
    (MapEntry.printAll width naming first (MapEntry.relabelAll f es)).map Fragment.text =
      (MapEntry.printAll width (naming.through f) first es).map Fragment.text := by
  match es with
  | [] => rfl
  | .stored _ :: rest =>
    simp [MapEntry.relabelAll, MapEntry.printAll, MapEntry.text_printAll_relabel first rest]
  | .computed _ e :: rest =>
    simp [MapEntry.relabelAll, MapEntry.printAll, e.text_print_relabel first, Expr.events_relabel,
      MapEntry.text_printAll_relabel _ rest]
termination_by structural es

/-- A relabelled predicate is printed as the predicate is through the exchange. -/
theorem Predicate.text_print_relabel (first : Nat) (p : Predicate) :
    ((p.relabel f).print width naming first).map Fragment.text =
      (p.print width (naming.through f) first).map Fragment.text := by
  cases p with
  | compare comparison left right =>
    have hright := Expr.text_printOptional_relabel (first + pages left.events) right
    cases hunary : comparison.isUnary <;>
      simp [Predicate.relabel, Predicate.print, left.text_print_relabel first, hright, hunary,
        Expr.events_relabel]
  | all parts =>
    simp [Predicate.relabel, Predicate.print, Predicate.text_printAll_relabel first parts]
  | any parts =>
    simp [Predicate.relabel, Predicate.print, Predicate.text_printAll_relabel first parts]
  | not part =>
    have hpart := congrArg (Option.map (negated part)) (part.text_print_relabel first)
    simpa [Predicate.relabel, Predicate.print, negated_relabel, Function.comp_def] using hpart
  | exist body =>
    simp [Predicate.relabel, Predicate.print, Fragment.block, body.text_print_relabel first]
  | single v list filter =>
    have hlist := list.text_print_relabel first
    have hfilter := Predicate.text_printOptional_relabel (first + pages list.events) filter
    simp only [Predicate.relabel, Predicate.print, Expr.events_relabel, Event.pages_map_relabel]
    cases hleft : Predicate.printOptional width naming (first + pages list.events)
        (Predicate.relabelOptional f filter) <;>
      cases hright : Predicate.printOptional width (naming.through f)
        (first + pages list.events) filter <;>
      simp_all
termination_by structural p

/-- A relabelled expression is printed through the exchange, if there is one. -/
theorem Expr.text_printOptional_relabel (first : Nat) (e : Option Expr) :
    (Expr.printOptional width naming first (Expr.relabelOptional f e)).text =
      (Expr.printOptional width (naming.through f) first e).text := by
  cases e with
  | none => rfl
  | some e => simp [Expr.relabelOptional, Expr.printOptional, e.text_print_relabel first]
termination_by structural e

/-- A relabelled predicate is printed through the exchange, if there is one. -/
theorem Predicate.text_printOptional_relabel (first : Nat) (p : Option Predicate) :
    (Predicate.printOptional width naming first (Predicate.relabelOptional f p)).map
        Fragment.text =
      (Predicate.printOptional width (naming.through f) first p).map Fragment.text := by
  cases p with
  | none => rfl
  | some p => exact p.text_print_relabel first
termination_by structural p

/-- Relabelled predicates are printed as the predicates are through the exchange. -/
theorem Predicate.text_printAll_relabel (first : Nat) (ps : List Predicate) :
    (Predicate.printAll width naming first (Predicate.relabelAll f ps)).map Fragment.text =
      (Predicate.printAll width (naming.through f) first ps).map Fragment.text := by
  cases ps with
  | nil => rfl
  | cons p rest =>
    have hp := congrArg Option.toList (p.text_print_relabel first)
    simp only [Option.toList_map] at hp
    simp [Predicate.relabelAll, Predicate.printAll, hp, Predicate.events_relabel,
      Predicate.text_printAll_relabel _ rest]
termination_by structural ps

/-- Relabelled items are printed as the items are through the exchange. -/
theorem Item.text_printAll_relabel (clause : ReadingClause) (first : Nat) (items : List Item) :
    (Item.printAll width naming clause first (Item.relabelAll f items)).map Fragment.text =
      (Item.printAll width (naming.through f) clause first items).map Fragment.text := by
  cases items with
  | nil => rfl
  | cons item rest =>
    have hrest := Item.text_printAll_relabel clause (first + pages (item.events clause)) rest
    rw [Item.relabelAll, Item.printAll, Item.printAll, List.map_cons, List.map_cons,
      item.text_print_relabel first, Item.events_relabel, Event.pages_map_relabel, hrest]
termination_by structural items

/-- A relabelled item is printed as the item is through the exchange. -/
theorem Item.text_print_relabel (first : Nat) (item : Item) :
    ((item.relabel f).print width naming first).text =
      (item.print width (naming.through f) first).text := by
  cases item with
  | plain e =>
    have halias := Item.text_printAlias_relabel f naming (.plain e)
    simp only [Item.relabel] at halias
    simp [Item.relabel, Item.print, e.text_print_relabel first, halias]
  | aliased e newName =>
    have halias := Item.text_printAlias_relabel f naming (.aliased e newName)
    simp only [Item.relabel] at halias
    simp [Item.relabel, Item.print, e.text_print_relabel first, halias]
  | named e newName =>
    have halias := Item.text_printAlias_relabel f naming (.named e newName)
    simp only [Item.relabel] at halias
    simp [Item.relabel, Item.print, e.text_print_relabel first, halias]
termination_by structural item

/-- Relabelled sort keys are printed as the keys are through the exchange. -/
theorem Statement.text_printKeys_relabel (first : Nat) (keys : List (Expr × SortDirection)) :
    (Statement.printKeys width naming first (Statement.relabelKeys f keys)).map Fragment.text =
      (Statement.printKeys width (naming.through f) first keys).map Fragment.text := by
  match keys with
  | [] => rfl
  | (e, _) :: rest =>
    simp [Statement.relabelKeys, Statement.printKeys, e.text_print_relabel first,
      Expr.events_relabel, Statement.text_printKeys_relabel _ rest]
termination_by structural keys

/-- A relabelled statement prints the same text under a naming as the statement does under the
naming that sees it through the exchange. -/
theorem Statement.text_print_relabel (first : Nat) (s : Statement) :
    ((s.relabel f).print width naming first).text =
      (s.print width (naming.through f) first).text := by
  cases s with
  | matching _ pattern clauses =>
    simp [Statement.relabel, Statement.print, pattern.text_print_relabel f naming,
      Statement.text_printAll_relabel first clauses]
  | filtering parts =>
    rw [Statement.relabel, Statement.text_print_filtering, Statement.text_print_filtering,
      Predicate.text_printAll_relabel first parts]
  | returning _ items =>
    have hitems := Item.text_printAll_relabel .returning first items
    rw [Statement.relabel, Statement.print, Statement.print, Fragment.text_append,
      Fragment.text_append, Fragment.text_assemble, Fragment.text_assemble, hitems]
  | calling body imports base clauses =>
    simp [Statement.relabel, Statement.print, Fragment.block, body.text_print_relabel first,
      Statement.events_relabel, Statement.text_printAll_relabel _ clauses, Function.comp_def]
  | passing _ items clauses =>
    have hitems := Item.text_printAll_relabel .passing first items
    have hclauses := Statement.text_printAll_relabel
      (first + pages (Item.eventsAll .passing items)) clauses
    rw [Statement.relabel, Statement.print, Statement.print, Fragment.text_stacked,
      Fragment.text_stacked, Item.eventsAll_relabel, Event.pages_map_relabel, hclauses,
      Fragment.text_append, Fragment.text_append, Fragment.text_assemble, Fragment.text_assemble,
      hitems]
  | passingAll _ clauses =>
    simp [Statement.relabel, Statement.print, Statement.text_printAll_relabel first clauses]
  | ordering keys =>
    rw [Statement.relabel, Statement.text_print_ordering, Statement.text_print_ordering,
      Statement.text_printKeys_relabel first keys]
  | skipping _ => rfl
  | limiting _ => rfl
termination_by structural s

/-- Relabelled clauses are printed as the clauses are through the exchange. -/
theorem Statement.text_printAll_relabel (first : Nat) (ss : List Statement) :
    (Statement.printAll width naming first (Statement.relabelAll f ss)).map Fragment.text =
      (Statement.printAll width (naming.through f) first ss).map Fragment.text := by
  cases ss with
  | nil => rfl
  | cons s rest =>
    have hs := s.text_print_relabel first
    have hrest := Statement.text_printAll_relabel (first + pages s.events) rest
    simp only [Statement.relabelAll, Statement.printAll, Statement.events_relabel,
      Event.pages_map_relabel, hs]
    split <;> simp [hs, hrest]
termination_by structural ss
end

end Texts

end GraphRead
