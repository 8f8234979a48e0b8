import GraphRead.Proofs.Rendering.Simulation

/-!
# Renaming identities

Identities tell the variables and the parameters of a tree apart, and nothing else
is known about them. This file proves that they can be exchanged for others: as
long as different identities of a tree stay different, the tree is rendered to the
same result. What happens to identities that are not in the tree does not matter,
since a renaming can be changed there to keep all identities apart.
-/

namespace GraphRead

open Event

/-- New identities for variables and for parameters. -/
structure Renaming where
  var : Nat → Nat
  param : Nat → Nat

section Renamed

variable (f : Renaming)

/-- The variable with another identity. -/
def Variable.rename (v : Variable) : Variable := { v with identity := f.var v.identity }

/-- The parameter with another identity. -/
def Param.rename (p : Param) : Param := { p with identity := f.param p.identity }

/-- The pattern of a node with other identities. -/
def NodePattern.rename (node : NodePattern) : NodePattern :=
  ⟨node.bound.map (Variable.rename f), node.labels,
    node.properties.map fun (key, p) => (key, p.rename f)⟩

/-- The pattern of a relationship with another identity. -/
def RelationshipPattern.rename (relationship : RelationshipPattern) : RelationshipPattern :=
  ⟨relationship.bound.map (Variable.rename f), relationship.type, relationship.direction⟩

/-- The pattern with other identities. -/
def Pattern.rename (pattern : Pattern) : Pattern :=
  ⟨pattern.start.rename f, pattern.hops.map fun (r, node) => (r.rename f, node.rename f)⟩

mutual
/-- The expression with other identities. -/
def Expr.rename : Expr → Expr
  | .var v => .var (v.rename f)
  | .property v path => .property (v.rename f) path
  | .param p => .param (p.rename f)
  | .literal value => .literal value
  | .apply function arguments => .apply function (Expr.renameAll arguments)
  | .list items => .list (Expr.renameAll items)
  | .map entries => .map (Expr.renameEntries entries)
  | .project v entries => .project (v.rename f) (MapEntry.renameAll entries)
  | .comprehend pattern filter result =>
    .comprehend (pattern.rename f) (Predicate.renameOptional filter) result.rename
termination_by structural e => e

/-- The expressions in a row with other identities. -/
def Expr.renameAll : List Expr → List Expr
  | [] => []
  | e :: rest => e.rename :: Expr.renameAll rest
termination_by structural es => es

/-- The entries of a map with other identities. -/
def Expr.renameEntries : List (String × Expr) → List (String × Expr)
  | [] => []
  | (key, e) :: rest => (key, e.rename) :: Expr.renameEntries rest
termination_by structural es => es

/-- The entries of a projection with other identities. -/
def MapEntry.renameAll : List MapEntry → List MapEntry
  | [] => []
  | .stored key :: rest => .stored key :: MapEntry.renameAll rest
  | .computed key e :: rest => .computed key e.rename :: MapEntry.renameAll rest
termination_by structural es => es

/-- The predicate with other identities. -/
def Predicate.rename : Predicate → Predicate
  | .compare comparison left right =>
    .compare comparison left.rename (Expr.renameOptional right)
  | .all parts => .all (Predicate.renameAll parts)
  | .any parts => .any (Predicate.renameAll parts)
  | .not part => .not part.rename
  | .exist body => .exist body.rename
  | .single v list filter =>
    .single (v.rename f) list.rename (Predicate.renameOptional filter)
termination_by structural p => p

/-- The expression with other identities, if there is one. -/
def Expr.renameOptional : Option Expr → Option Expr
  | none => none
  | some e => some e.rename
termination_by structural e => e

/-- The predicate with other identities, if there is one. -/
def Predicate.renameOptional : Option Predicate → Option Predicate
  | none => none
  | some p => some p.rename
termination_by structural p => p

/-- The predicates in a row with other identities. -/
def Predicate.renameAll : List Predicate → List Predicate
  | [] => []
  | p :: rest => p.rename :: Predicate.renameAll rest
termination_by structural ps => ps

/-- The items in a row with other identities. -/
def Item.renameAll : List Item → List Item
  | [] => []
  | item :: rest => item.rename :: Item.renameAll rest
termination_by structural items => items

/-- The item with other identities. -/
def Item.rename : Item → Item
  | .plain e => .plain e.rename
  | .aliased e newName => .aliased e.rename (newName.rename f)
  | .named e newName => .named e.rename newName
termination_by structural item => item

/-- The sort keys with other identities. -/
def Statement.renameKeys : List (Expr × SortDirection) → List (Expr × SortDirection)
  | [] => []
  | (e, direction) :: rest => (e.rename, direction) :: Statement.renameKeys rest
termination_by structural keys => keys

/-- The statement with other identities. -/
def Statement.rename : Statement → Statement
  | .matching optional pattern clauses =>
    .matching optional (pattern.rename f) (Statement.renameAll clauses)
  | .filtering parts => .filtering (Predicate.renameAll parts)
  | .returning distinct items => .returning distinct (Item.renameAll items)
  | .calling body imports base clauses =>
    .calling body.rename (imports.map (Variable.rename f)) base (Statement.renameAll clauses)
  | .passing distinct items clauses =>
    .passing distinct (Item.renameAll items) (Statement.renameAll clauses)
  | .passingAll distinct clauses => .passingAll distinct (Statement.renameAll clauses)
  | .ordering keys => .ordering (Statement.renameKeys keys)
  | .skipping count => .skipping count
  | .limiting count => .limiting count
termination_by structural s => s

/-- The clauses in a row with other identities. -/
def Statement.renameAll : List Statement → List Statement
  | [] => []
  | s :: rest => s.rename :: Statement.renameAll rest
termination_by structural ss => ss
end

end Renamed

/-- The variables and parameters of a node of a pattern. -/
def NodePattern.mentions (node : NodePattern) : List Handle :=
  node.bound.toList.map .var ++ node.properties.map fun entry => .param entry.2

/-- The variable of a relationship of a pattern. -/
def RelationshipPattern.mentions (relationship : RelationshipPattern) : List Handle :=
  relationship.bound.toList.map .var

/-- The variables and parameters of a pattern. -/
def Pattern.mentions (pattern : Pattern) : List Handle :=
  pattern.start.mentions ++ pattern.hops.flatMap fun hop => hop.1.mentions ++ hop.2.mentions

mutual
/-- The variables and parameters that an expression mentions. -/
def Expr.mentions : Expr → List Handle
  | .var v => [.var v]
  | .property v _ => [.var v]
  | .param p => [.param p]
  | .literal _ => []
  | .apply _ arguments => Expr.mentionsAll arguments
  | .list items => Expr.mentionsAll items
  | .map entries => Expr.mentionsEntries entries
  | .project v entries => .var v :: MapEntry.mentionsAll entries
  | .comprehend pattern filter result =>
    pattern.mentions ++ Predicate.mentionsOptional filter ++ result.mentions
termination_by structural e => e

/-- The variables and parameters that expressions mention. -/
def Expr.mentionsAll : List Expr → List Handle
  | [] => []
  | e :: rest => e.mentions ++ Expr.mentionsAll rest
termination_by structural es => es

/-- The variables and parameters that a map mentions. -/
def Expr.mentionsEntries : List (String × Expr) → List Handle
  | [] => []
  | (_, e) :: rest => e.mentions ++ Expr.mentionsEntries rest
termination_by structural es => es

/-- The variables and parameters that entries of a projection mention. -/
def MapEntry.mentionsAll : List MapEntry → List Handle
  | [] => []
  | .stored _ :: rest => MapEntry.mentionsAll rest
  | .computed _ e :: rest => e.mentions ++ MapEntry.mentionsAll rest
termination_by structural es => es

/-- The variables and parameters of a predicate. -/
def Predicate.mentions : Predicate → List Handle
  | .compare _ left right => left.mentions ++ Expr.mentionsOptional right
  | .all parts => Predicate.mentionsAll parts
  | .any parts => Predicate.mentionsAll parts
  | .not part => part.mentions
  | .exist body => body.mentions
  | .single v list filter => .var v :: list.mentions ++ Predicate.mentionsOptional filter
termination_by structural p => p

/-- The variables and parameters that an expression mentions, if there is one. -/
def Expr.mentionsOptional : Option Expr → List Handle
  | none => []
  | some e => e.mentions
termination_by structural e => e

/-- The variables and parameters that a predicate mentions, if there is one. -/
def Predicate.mentionsOptional : Option Predicate → List Handle
  | none => []
  | some p => p.mentions
termination_by structural p => p

/-- The variables and parameters that predicates mention. -/
def Predicate.mentionsAll : List Predicate → List Handle
  | [] => []
  | p :: rest => p.mentions ++ Predicate.mentionsAll rest
termination_by structural ps => ps

/-- The variables and parameters that items mention. -/
def Item.mentionsAll : List Item → List Handle
  | [] => []
  | item :: rest => item.mentions ++ Item.mentionsAll rest
termination_by structural items => items

/-- The variables and parameters that an item mentions, with its new name. -/
def Item.mentions : Item → List Handle
  | .plain e => e.mentions
  | .aliased e newName => e.mentions ++ [.var newName]
  | .named e _ => e.mentions
termination_by structural item => item

/-- The variables and parameters that sort keys mention. -/
def Statement.mentionsKeys : List (Expr × SortDirection) → List Handle
  | [] => []
  | (e, _) :: rest => e.mentions ++ Statement.mentionsKeys rest
termination_by structural keys => keys

/-- The variables and parameters of a statement. -/
def Statement.mentions : Statement → List Handle
  | .matching _ pattern clauses => pattern.mentions ++ Statement.mentionsAll clauses
  | .filtering parts => Predicate.mentionsAll parts
  | .returning _ items => Item.mentionsAll items
  | .calling body imports _ clauses =>
    body.mentions ++ imports.map .var ++ Statement.mentionsAll clauses
  | .passing _ items clauses => Item.mentionsAll items ++ Statement.mentionsAll clauses
  | .passingAll _ clauses => Statement.mentionsAll clauses
  | .ordering keys => Statement.mentionsKeys keys
  | .skipping _ => []
  | .limiting _ => []
termination_by structural s => s

/-- The variables and parameters that clauses mention. -/
def Statement.mentionsAll : List Statement → List Handle
  | [] => []
  | s :: rest => s.mentions ++ Statement.mentionsAll rest
termination_by structural ss => ss
end

/-- The identity of a variable. -/
def Handle.variableId? : Handle → Option Nat
  | .var v => some v.identity
  | _ => none

/-- The identity of a parameter. -/
def Handle.paramId? : Handle → Option Nat
  | .param p => some p.identity
  | _ => none

/-- Identities stay apart. -/
def KeepsApart (rename : Nat → Nat) (identities : List Nat) : Prop :=
  ∀ m ∈ identities, ∀ n ∈ identities, rename m = rename n → m = n

/-- Different identities of variables stay different, and so do those of parameters. -/
structure Renaming.Separates (f : Renaming) (handles : List Handle) : Prop where
  vars : KeepsApart f.var (handles.filterMap Handle.variableId?)
  params : KeepsApart f.param (handles.filterMap Handle.paramId?)

/-- A relabelling gives the identities of a renaming to some variables and parameters. -/
structure Relabelling.Extends (g : Relabelling) (f : Renaming) (handles : List Handle) : Prop where
  var : ∀ v, .var v ∈ handles → g.var v = v.rename f
  param : ∀ p, .param p ∈ handles → g.param p = p.rename f
  count : ∀ n, g.count n = n

namespace Relabelling.Extends

variable {g : Relabelling} {f : Renaming} {first second : List Handle}

/-- What extends a renaming on some handles does so on fewer. -/
theorem subset (h : g.Extends f second) (hsub : first ⊆ second) : g.Extends f first where
  var := fun v hv => h.var v (hsub hv)
  param := fun p hp => h.param p (hsub hp)
  count := h.count

/-- What extends a renaming on two lists does so on the first. -/
theorem left (h : g.Extends f (first ++ second)) : g.Extends f first :=
  h.subset (List.subset_append_left first second)

/-- What extends a renaming on two lists does so on the second. -/
theorem right (h : g.Extends f (first ++ second)) : g.Extends f second :=
  h.subset (List.subset_append_right first second)

/-- Variables of which all are mentioned are renamed. -/
theorem map_vars {vs : List Variable} (h : g.Extends f (vs.map .var)) :
    vs.map g.var = vs.map (Variable.rename f) := by
  refine List.map_congr_left fun v hv => h.var v ?_
  exact List.mem_map_of_mem hv

/-- A variable that is mentioned is renamed, if there is one. -/
theorem map_optional {bound : Option Variable} (h : g.Extends f (bound.toList.map .var)) :
    bound.map g.var = bound.map (Variable.rename f) := by
  cases bound with
  | none => rfl
  | some v => exact congrArg some (h.var v List.mem_cons_self)

end Relabelling.Extends

section Equal

variable {g : Relabelling} {f : Renaming}

/-- Relabelling a node renames it, if all it mentions is renamed. -/
theorem NodePattern.relabel_eq_rename (node : NodePattern) (h : g.Extends f node.mentions) :
    node.relabel g = node.rename f := by
  have hproperties : (node.properties.map fun (key, p) => (key, g.param p)) =
      node.properties.map fun (key, p) => (key, p.rename f) := by
    refine List.map_congr_left fun entry hentry => ?_
    have hmentioned : Handle.param entry.2 ∈
        node.properties.map fun entry => Handle.param entry.2 :=
      List.mem_map_of_mem (f := fun entry : String × Param => Handle.param entry.2) hentry
    exact congrArg (entry.1, ·) (h.right.param entry.2 hmentioned)
  rw [NodePattern.relabel, NodePattern.rename, h.left.map_optional, hproperties]

/-- Relabelling a pattern renames it, if all it mentions is renamed. -/
theorem Pattern.relabel_eq_rename (pattern : Pattern) (h : g.Extends f pattern.mentions) :
    pattern.relabel g = pattern.rename f := by
  have hhops : (pattern.hops.map fun (r, node) => (r.relabel g, node.relabel g)) =
      pattern.hops.map fun (r, node) => (r.rename f, node.rename f) := by
    refine List.map_congr_left fun hop hhop => ?_
    have hmentions : g.Extends f (hop.1.mentions ++ hop.2.mentions) :=
      h.right.subset fun handle hhandle => List.mem_flatMap.mpr ⟨hop, hhop, hhandle⟩
    have hnode := hop.2.relabel_eq_rename hmentions.right
    simp only [RelationshipPattern.relabel, RelationshipPattern.rename,
      hmentions.left.map_optional, hnode]
  rw [Pattern.relabel, Pattern.rename, pattern.start.relabel_eq_rename h.left, hhops]

mutual
/-- Relabelling an expression renames it, if all it mentions is renamed. -/
theorem Expr.relabel_eq_rename (e : Expr) (h : g.Extends f e.mentions) :
    e.relabel g = e.rename f := by
  cases e with
  | var v => rw [Expr.relabel, Expr.rename, h.var v List.mem_cons_self]
  | property v path => rw [Expr.relabel, Expr.rename, h.var v List.mem_cons_self]
  | param p => rw [Expr.relabel, Expr.rename, h.param p List.mem_cons_self]
  | literal _ => rfl
  | apply function arguments =>
    rw [Expr.relabel, Expr.rename, Expr.relabelAll_eq_rename arguments h]
  | list items => rw [Expr.relabel, Expr.rename, Expr.relabelAll_eq_rename items h]
  | map entries => rw [Expr.relabel, Expr.rename, Expr.relabelEntries_eq_rename entries h]
  | project v entries =>
    rw [Expr.relabel, Expr.rename, h.var v List.mem_cons_self,
      MapEntry.relabelAll_eq_rename entries (h.subset (List.subset_cons_self _ _))]
  | comprehend pattern filter result =>
    rw [Expr.relabel, Expr.rename, pattern.relabel_eq_rename h.left.left,
      Predicate.relabelOptional_eq_rename filter h.left.right, result.relabel_eq_rename h.right]
termination_by structural e

/-- Relabelling expressions renames them, if all they mention is renamed. -/
theorem Expr.relabelAll_eq_rename (es : List Expr) (h : g.Extends f (Expr.mentionsAll es)) :
    Expr.relabelAll g es = Expr.renameAll f es := by
  cases es with
  | nil => rfl
  | cons e rest =>
    rw [Expr.relabelAll, Expr.renameAll, e.relabel_eq_rename h.left,
      Expr.relabelAll_eq_rename rest h.right]
termination_by structural es

/-- Relabelling entries of a map renames them, if all they mention is renamed. -/
theorem Expr.relabelEntries_eq_rename (es : List (String × Expr))
    (h : g.Extends f (Expr.mentionsEntries es)) :
    Expr.relabelEntries g es = Expr.renameEntries f es := by
  match es with
  | [] => rfl
  | (_, e) :: rest =>
    rw [Expr.relabelEntries, Expr.renameEntries, e.relabel_eq_rename h.left,
      Expr.relabelEntries_eq_rename rest h.right]
termination_by structural es

/-- Relabelling entries of a projection renames them, if all they mention is renamed. -/
theorem MapEntry.relabelAll_eq_rename (es : List MapEntry)
    (h : g.Extends f (MapEntry.mentionsAll es)) :
    MapEntry.relabelAll g es = MapEntry.renameAll f es := by
  match es with
  | [] => rfl
  | .stored _ :: rest =>
    rw [MapEntry.relabelAll, MapEntry.renameAll, MapEntry.relabelAll_eq_rename rest h]
  | .computed _ e :: rest =>
    rw [MapEntry.relabelAll, MapEntry.renameAll, e.relabel_eq_rename h.left,
      MapEntry.relabelAll_eq_rename rest h.right]
termination_by structural es

/-- A relabelling that extends a renaming acts on a predicate as the renaming does. -/
theorem Predicate.relabel_eq_rename (p : Predicate) (h : g.Extends f p.mentions) :
    p.relabel g = p.rename f := by
  cases p with
  | compare _ left right =>
    rw [Predicate.relabel, Predicate.rename, left.relabel_eq_rename h.left,
      Expr.relabelOptional_eq_rename right h.right]
  | all parts => rw [Predicate.relabel, Predicate.rename, Predicate.relabelAll_eq_rename parts h]
  | any parts => rw [Predicate.relabel, Predicate.rename, Predicate.relabelAll_eq_rename parts h]
  | not part => rw [Predicate.relabel, Predicate.rename, part.relabel_eq_rename h]
  | exist body => rw [Predicate.relabel, Predicate.rename, body.relabel_eq_rename h]
  | single v list filter =>
    rw [Predicate.relabel, Predicate.rename, h.left.var v List.mem_cons_self,
      list.relabel_eq_rename (h.left.subset (List.subset_cons_self _ _)),
      Predicate.relabelOptional_eq_rename filter h.right]
termination_by structural p

/-- Relabelling an expression renames it, if there is one. -/
theorem Expr.relabelOptional_eq_rename (e : Option Expr)
    (h : g.Extends f (Expr.mentionsOptional e)) :
    Expr.relabelOptional g e = Expr.renameOptional f e := by
  cases e with
  | none => rfl
  | some e => exact congrArg some (e.relabel_eq_rename h)
termination_by structural e

/-- Relabelling a predicate renames it, if there is one. -/
theorem Predicate.relabelOptional_eq_rename (p : Option Predicate)
    (h : g.Extends f (Predicate.mentionsOptional p)) :
    Predicate.relabelOptional g p = Predicate.renameOptional f p := by
  cases p with
  | none => rfl
  | some p => exact congrArg some (p.relabel_eq_rename h)
termination_by structural p

/-- Relabelling predicates renames them, if all they mention is renamed. -/
theorem Predicate.relabelAll_eq_rename (ps : List Predicate)
    (h : g.Extends f (Predicate.mentionsAll ps)) :
    Predicate.relabelAll g ps = Predicate.renameAll f ps := by
  cases ps with
  | nil => rfl
  | cons p rest =>
    rw [Predicate.relabelAll, Predicate.renameAll, p.relabel_eq_rename h.left,
      Predicate.relabelAll_eq_rename rest h.right]
termination_by structural ps

/-- Relabelling items renames them, if all they mention is renamed. -/
theorem Item.relabelAll_eq_rename (items : List Item) (h : g.Extends f (Item.mentionsAll items)) :
    Item.relabelAll g items = Item.renameAll f items := by
  cases items with
  | nil => rfl
  | cons item rest =>
    rw [Item.relabelAll, Item.renameAll, item.relabel_eq_rename h.left,
      Item.relabelAll_eq_rename rest h.right]
termination_by structural items

/-- Relabelling an item renames it, if all it mentions is renamed. -/
theorem Item.relabel_eq_rename (item : Item) (h : g.Extends f item.mentions) :
    item.relabel g = item.rename f := by
  cases item with
  | plain e => rw [Item.relabel, Item.rename, e.relabel_eq_rename h]
  | aliased e newName =>
    rw [Item.relabel, Item.rename, e.relabel_eq_rename h.left,
      h.right.var newName List.mem_cons_self]
  | named e newName => rw [Item.relabel, Item.rename, e.relabel_eq_rename h]
termination_by structural item

/-- Relabelling sort keys renames them, if all they mention is renamed. -/
theorem Statement.relabelKeys_eq_rename (keys : List (Expr × SortDirection))
    (h : g.Extends f (Statement.mentionsKeys keys)) :
    Statement.relabelKeys g keys = Statement.renameKeys f keys := by
  match keys with
  | [] => rfl
  | (e, _) :: rest =>
    rw [Statement.relabelKeys, Statement.renameKeys, e.relabel_eq_rename h.left,
      Statement.relabelKeys_eq_rename rest h.right]
termination_by structural keys

/-- A relabelling that extends a renaming acts on a statement as the renaming does. -/
theorem Statement.relabel_eq_rename (s : Statement) (h : g.Extends f s.mentions) :
    s.relabel g = s.rename f := by
  cases s with
  | matching _ pattern clauses =>
    rw [Statement.relabel, Statement.rename, pattern.relabel_eq_rename h.left,
      Statement.relabelAll_eq_rename clauses h.right]
  | filtering parts =>
    rw [Statement.relabel, Statement.rename, Predicate.relabelAll_eq_rename parts h]
  | returning distinct items =>
    rw [Statement.relabel, Statement.rename, Item.relabelAll_eq_rename items h]
  | calling body imports _ clauses =>
    rw [Statement.relabel, Statement.rename, body.relabel_eq_rename h.left.left,
      h.left.right.map_vars, Statement.relabelAll_eq_rename clauses h.right]
  | passing _ items clauses =>
    rw [Statement.relabel, Statement.rename, Item.relabelAll_eq_rename items h.left,
      Statement.relabelAll_eq_rename clauses h.right]
  | passingAll distinct clauses =>
    rw [Statement.relabel, Statement.rename, Statement.relabelAll_eq_rename clauses h]
  | ordering keys =>
    rw [Statement.relabel, Statement.rename, Statement.relabelKeys_eq_rename keys h]
  | skipping count => rw [Statement.relabel, Statement.rename, h.count count]
  | limiting count => rw [Statement.relabel, Statement.rename, h.count count]
termination_by structural s

/-- Relabelling clauses renames them, if all they mention is renamed. -/
theorem Statement.relabelAll_eq_rename (ss : List Statement)
    (h : g.Extends f (Statement.mentionsAll ss)) :
    Statement.relabelAll g ss = Statement.renameAll f ss := by
  cases ss with
  | nil => rfl
  | cons s rest =>
    rw [Statement.relabelAll, Statement.renameAll, s.relabel_eq_rename h.left,
      Statement.relabelAll_eq_rename rest h.right]
termination_by structural ss
end

end Equal

namespace Renaming

/-- A number that no new identity of a list exceeds. -/
def bound (rename : Nat → Nat) : List Nat → Nat
  | [] => 0
  | identity :: rest => rename identity + bound rename rest

/-- No new identity of the list exceeds the bound. -/
theorem le_bound (rename : Nat → Nat) {known : List Nat} {identity : Nat}
    (h : identity ∈ known) : rename identity ≤ bound rename known := by
  induction known with
  | nil => cases h
  | cons first rest ih =>
    rw [bound]
    rcases List.mem_cons.mp h with rfl | hrest
    · omega
    · have hbound := ih hrest
      omega

/-- New identities that agree with the given ones on a list, and that are larger than all of these
elsewhere. -/
def spread (rename : Nat → Nat) (known : List Nat) (identity : Nat) : Nat :=
  if identity ∈ known then rename identity else bound rename known + identity + 1

/-- Spread identities are all kept apart, if those on the list are. -/
theorem spread_injective {rename : Nat → Nat} {known : List Nat}
    (h : KeepsApart rename known) : Function.Injective (spread rename known) := by
  intro m n heq
  unfold spread at heq
  by_cases hm : m ∈ known <;> by_cases hn : n ∈ known
  · rw [if_pos hm, if_pos hn] at heq
    exact h m hm n hn heq
  · rw [if_pos hm, if_neg hn] at heq
    have hbound := le_bound rename hm
    omega
  · rw [if_neg hm, if_pos hn] at heq
    have hbound := le_bound rename hn
    omega
  · rw [if_neg hm, if_neg hn] at heq
    omega

variable {f : Renaming} {handles : List Handle}

/-- The renaming, changed where nothing is mentioned to keep all variables apart. -/
def Separates.relabelling (h : f.Separates handles) : Relabelling where
  var := Variable.rename ⟨spread f.var (handles.filterMap Handle.variableId?), id⟩
  param := Param.rename ⟨id, spread f.param (handles.filterMap Handle.paramId?)⟩
  count := id
  injective := by
    rintro ⟨m, kind, name, labels⟩ ⟨n, kind', name', labels'⟩ heq
    simp only [Variable.rename, Variable.mk.injEq] at heq ⊢
    exact ⟨spread_injective h.vars heq.1, heq.2⟩
  name := fun _ => rfl
  kind := fun _ => rfl

/-- Where something is mentioned, it is renamed as before. -/
theorem Separates.extends (h : f.Separates handles) : h.relabelling.Extends f handles where
  var := by
    intro v hv
    have hknown : v.identity ∈ handles.filterMap Handle.variableId? :=
      List.mem_filterMap.mpr ⟨.var v, hv, rfl⟩
    simp only [relabelling, Variable.rename, spread, if_pos hknown]
  param := by
    intro p hp
    have hknown : p.identity ∈ handles.filterMap Handle.paramId? :=
      List.mem_filterMap.mpr ⟨.param p, hp, rfl⟩
    simp only [relabelling, Param.rename, spread, if_pos hknown]
  count := fun _ => rfl

/-- All parameters stay apart, and values are the same. -/
theorem Separates.respects (h : f.Separates handles) :
    h.relabelling.Respects Eq fun _ => True where
  separates := by
    rintro ⟨m, value⟩ ⟨n, value'⟩ - - heq
    simp only [relabelling, Param.rename, Param.mk.injEq] at heq ⊢
    exact ⟨spread_injective h.params heq.1, heq.2⟩
  values := fun _ => rfl
  counts := fun _ => rfl

end Renaming

/-- Tables with the same names and equal values are equal. -/
theorem eq_of_rowsMatch {rows rows' : List (String × Json)}
    (h : List.Forall₂ (RowsMatch Eq) rows rows') : rows' = rows := by
  induction h with
  | nil => rfl
  | cons hrow _ ih => rw [ih, Prod.ext hrow.1 hrow.2]

/-- Two renderings of which one has the relabelled events of the other end in the same way, if
relabelling changes no values. What is made of the result and the table is therefore the same. -/
theorem Traced.result_relabel {α β : Type} {options : RenderOptions} {f : Relabelling}
    {m m' : Render α} {events : List Event} {value value' : Naming → Nat → α}
    (hm : Traced options m events value)
    (hm' : Traced options m' (events.map (Event.relabel f)) value')
    (hvalue : ∀ naming first, value' naming first = value (naming.through f) first)
    (hf : f.Respects Eq fun _ => True) (finish : α → List (String × Json) → β) :
    (m'.result (.initial options)).1.map (finish · (m'.result (.initial options)).2.params) =
      (m.result (.initial options)).1.map (finish · (m.result (.initial options)).2.params) := by
  have hstep : (runAll events (.initial options)).Matches f Eq (fun _ => True)
      (runAll (events.map (Event.relabel f)) (.initial options)) :=
    runAll_relabel hf (fun _ _ => trivial) (Context.Matches.initial options)
  cases hrun : runAll events (.initial options) with
  | error error =>
    rw [hrun] at hstep
    match hrun' : runAll (events.map (Event.relabel f)) (.initial options), hstep with
    | .error _, rfl => rw [hm.error rfl hrun, hm'.error rfl hrun']; rfl
  | ok result =>
    obtain ⟨names, after⟩ := result
    rw [hrun] at hstep
    match hrun' : runAll (events.map (Event.relabel f)) (.initial options), hstep with
    | .ok (_, after'), ⟨rfl, hafter⟩ =>
      obtain ⟨x, hx, hxvalue⟩ := hm.ok rfl hrun
      obtain ⟨x', hx', hxvalue'⟩ := hm'.ok rfl hrun'
      have hagrees := after'.naming_agrees names
      have hpages := after'.naming_agreesFrom names
      -- Through the exchange, the names of the second run are those of the first.
      have hsame : x' = x := by
        rw [← hxvalue' _ 0 hagrees hpages, hvalue]
        exact hxvalue _ 0 (hafter.through_agrees hf hagrees) hpages
      rw [hx, hx', hsame]
      exact congrArg (fun rows => Except.ok (finish x rows)) (eq_of_rowsMatch hafter.params)

/-- Relabelling a statement does not change the query that is built, if it keeps the parameters
apart and their values as they are. -/
theorem Statement.build_relabel {f : Relabelling} (hf : f.Respects Eq fun _ => True)
    (s : Statement) (options : RenderOptions) : (s.relabel f).build options = s.build options := by
  have htraced := Statement.traced options (s.relabel f)
  rw [Statement.events_relabel] at htraced
  exact (Statement.traced options s).result_relabel htraced
    (fun naming first => s.text_print_relabel f options.indentWidth naming first) hf Query.mk

/-- Relabelling a predicate does not change what is built, if it keeps the parameters apart and
their values as they are. -/
theorem Predicate.build_relabel {f : Relabelling} (hf : f.Respects Eq fun _ => True)
    (p : Predicate) (options : RenderOptions) : (p.relabel f).build options = p.build options := by
  have htraced := Predicate.traced options (p.relabel f)
  rw [Predicate.events_relabel] at htraced
  exact (Predicate.traced options p).result_relabel htraced
    (fun naming first => p.text_print_relabel f options.indentWidth naming first) hf
    fun text rows => text.map (Query.mk · rows)

/-- Identities can be exchanged for others without a change of the result. -/
theorem Renaming.build_rename (f : Renaming) (options : RenderOptions) :
    (∀ s : Statement, f.Separates s.mentions → (s.rename f).build options = s.build options) ∧
      ∀ p : Predicate, f.Separates p.mentions → (p.rename f).build options = p.build options := by
  constructor
  · intro s hs
    rw [← s.relabel_eq_rename hs.extends]
    exact s.build_relabel hs.respects options
  · intro p hp
    rw [← p.relabel_eq_rename hp.extends]
    exact p.build_relabel hp.respects options

/-- A film of a year has an actor of an age. -/
def castPredicate : Predicate :=
  .all [.compare .equal (.property (.node 0 ["Movie"]) ["year"]) (some (.param ⟨0, .ofNat 1999⟩)),
    .exist (.matching false
      ⟨.of (.node 0 ["Movie"]), [(⟨none, some "ACTED_IN", .incoming⟩, .of (.node 1 ["Person"]))]⟩
      [.filtering [.compare .equal (.property (.node 1 ["Person"]) ["age"])
        (some (.param ⟨1, .ofNat 1999⟩))]])]

/-- The films of that kind. -/
def castStatement : Statement :=
  .matching false ⟨.of (.node 0 ["Movie"]), []⟩
    [.filtering [castPredicate], .returning false [.plain (.var (.node 0 ["Movie"]))]]

/-- The film and the actor change places, and so do their parameters. No other identities are kept
apart. -/
def exchange : Renaming := ⟨fun n => if n = 0 then 1 else 0, fun n => if n = 0 then 1 else 0⟩

/-- The exchange changes what is mentioned, and not what is built. -/
theorem Renaming.build_rename_exchange :
    exchange.Separates castStatement.mentions ∧ exchange.Separates castPredicate.mentions ∧
      (castStatement.rename exchange).mentions ≠ castStatement.mentions ∧
      (castStatement.rename exchange).build {} = castStatement.build {} ∧
      (castPredicate.rename exchange).build {} = castPredicate.build {} := by
  have hstatement : exchange.Separates castStatement.mentions :=
    ⟨by unfold KeepsApart; decide, by unfold KeepsApart; decide⟩
  have hpredicate : exchange.Separates castPredicate.mentions :=
    ⟨by unfold KeepsApart; decide, by unfold KeepsApart; decide⟩
  obtain ⟨hstatements, hpredicates⟩ := exchange.build_rename {}
  exact ⟨hstatement, hpredicate, by decide, hstatements _ hstatement, hpredicates _ hpredicate⟩

end GraphRead
