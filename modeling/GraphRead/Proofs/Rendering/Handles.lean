import GraphRead.Proofs.Rendering.Print

/-!
# Printed handles

A printed fragment lists the handles in its text. This file proves that these are
exactly the handles that the events of the tree ask for, in the same order:
although parts that have nothing to say are left out after they were printed, no
such part refers to anything.
-/

namespace GraphRead

open Event (pages)

/-- The handles that events ask for, if there are `first` pages before them. -/
def Event.handles (first : Nat) : List Event → List Handle
  | [] => []
  | .name v :: rest => .var v :: handles first rest
  | .param p :: rest => .param p :: handles first rest
  | .page count :: rest => .page first count :: handles (first + 1) rest
  | _ :: rest => handles first rest

namespace Event

/-- Events in a row ask for what the first and what the others ask for. The pages of the first are
counted. -/
@[simp]
theorem handles_append (first : Nat) (before after : List Event) :
    handles first (before ++ after) =
      handles first before ++ handles (first + pages before) after := by
  induction before generalizing first with
  | nil => simp [handles, pages]
  | cons event rest ih =>
    cases event with
    | page count => simp only [List.cons_append, handles, pages, ih, Nat.add_assoc, Nat.add_comm 1]
    | _ => simp only [List.cons_append, handles, pages, ih]

/-- Events that each ask for one handle. -/
theorem handles_map {α : Type} (event : α → Event) (handle : α → Handle) (first : Nat)
    (hhandles : ∀ a, handles first [event a] = [handle a]) (hpages : ∀ a, pages [event a] = 0)
    (as : List α) : handles first (as.map event) = as.map handle := by
  induction as with
  | nil => rfl
  | cons a rest ih =>
    rw [List.map_cons, ← List.singleton_append, handles_append, hhandles, hpages]
    simp [ih]

/-- Events that ask for no handle. -/
theorem handles_map_nil {α : Type} (event : α → Event) (first : Nat)
    (hhandles : ∀ a, handles first [event a] = []) (hpages : ∀ a, pages [event a] = 0)
    (as : List α) : handles first (as.map event) = [] := by
  induction as with
  | nil => rfl
  | cons a rest ih =>
    rw [List.map_cons, ← List.singleton_append, handles_append, hhandles, hpages]
    simp [ih]

/-- Naming variables asks for them. -/
@[simp]
theorem handles_map_name (first : Nat) (vs : List Variable) :
    handles first (vs.map .name) = vs.map .var :=
  handles_map _ _ first (fun _ => rfl) (fun _ => rfl) vs

/-- Declaring variables asks for nothing. -/
@[simp]
theorem handles_map_declare (first : Nat) (vs : List Variable) :
    handles first (vs.map .declare) = [] :=
  handles_map_nil _ first (fun _ => rfl) (fun _ => rfl) vs

/-- Requiring variables asks for nothing. -/
@[simp]
theorem handles_map_require (first : Nat) (clause : ReadingClause) (vs : List Variable) :
    handles first (vs.map (.require clause)) = [] :=
  handles_map_nil _ first (fun _ => rfl) (fun _ => rfl) vs

/-- A projection asks for the handles of its items. -/
@[simp]
theorem handles_projectionEvents (first : Nat) (clause : ReadingClause) (items : List Item) :
    handles first (projectionEvents clause items (Item.eventsAll clause items)) =
      handles first (Item.eventsAll clause items) := by
  cases items <;> rfl

/-- Pages are numbered from the first one on. -/
theorem le_of_page_mem_handles {first number : Nat} {count : UInt64} {events : List Event}
    (h : .page number count ∈ handles first events) : first ≤ number := by
  induction events generalizing first with
  | nil => simp [handles] at h
  | cons event rest ih =>
    cases event with
    | page other =>
      simp only [handles, List.mem_cons, Handle.page.injEq] at h
      rcases h with ⟨rfl, -⟩ | h
      · exact Nat.le_refl _
      · have := ih h
        omega
    | name | param =>
      simp only [handles, List.mem_cons, reduceCtorEq, false_or] at h
      exact ih h
    | _ => exact ih h

end Event

open Event (handles)

namespace Fragment

/-- Words refer to nothing. -/
@[simp]
theorem handles_words (text : String) : (words text).handles = [] := rfl

/-- Fragments in a row refer to what each refers to. -/
@[simp]
theorem handles_append (before after : Fragment) :
    (before ++ after).handles = before.handles ++ after.handles := rfl

/-- Assembled fragments refer to what the parts refer to, however their texts are put together. -/
@[simp]
theorem handles_assemble (texts : List String → String) (parts : List Fragment) :
    (assemble texts parts).handles = parts.flatMap Fragment.handles := rfl

/-- The fragment of a variable refers to it. -/
@[simp]
theorem handles_ofVariable (naming : Naming) (v : Variable) :
    (ofVariable naming v).handles = [.var v] := rfl

/-- The fragment of a parameter refers to it. -/
@[simp]
theorem handles_ofParam (naming : Naming) (p : Param) :
    (ofParam naming p).handles = [.param p] := rfl

/-- The fragment of a page refers to it, with its number. -/
@[simp]
theorem handles_ofPage (naming : Naming) (number : Nat) (count : UInt64) :
    (ofPage naming number count).handles = [.page number count] := rfl

/-- A block refers to what its body refers to. -/
@[simp]
theorem handles_block (width : Nat) (head : String) (body : Fragment) :
    (block width head body).handles = body.handles := rfl

/-- Stacked fragments refer to what the head and the clauses refer to. -/
@[simp]
theorem handles_stacked (head : Fragment) (clauses : List Fragment) :
    (stacked head clauses).handles = head.handles ++ clauses.flatMap Fragment.handles := rfl

/-- A subquery refers to what it imports and to what its body refers to. -/
@[simp]
theorem handles_importing (names : List Fragment) (body : Fragment) :
    (importing names body).handles = names.flatMap Fragment.handles ++ body.handles := by
  cases names with
  | nil => rfl
  | cons name rest => simp [importing]

/-- The handles of a fragment that may be missing. -/
def optionalHandles (fragment : Option Fragment) : List Handle :=
  (fragment.map Fragment.handles).getD []

/-- A junction loses no handles: it is missing only if it has no parts. -/
@[simp]
theorem optionalHandles_junction (keyword : String) (parts : List Fragment) :
    optionalHandles (junction keyword parts) = parts.flatMap Fragment.handles := by
  match parts with
  | [] => rfl
  | [_] => simp [junction, optionalHandles]
  | _ :: _ :: _ => simp [junction, optionalHandles]

/-- A fragment that may be missing, as a list of at most one. -/
@[simp]
theorem flatMap_toList (fragment : Option Fragment) :
    fragment.toList.flatMap Fragment.handles = optionalHandles fragment := by
  cases fragment <;> simp [optionalHandles]

/-- A text that begins with something is not empty. -/
theorem text_ne_empty_of_words {start : String} {rest : Fragment} (h : start ≠ "") :
    (words start ++ rest).text ≠ "" := by
  intro hempty
  exact h (String.append_eq_empty_iff.mp hempty).1

/-- A clause with something to say stays so with the clauses that belong to it. -/
theorem text_stacked_ne_empty {head : Fragment} (clauses : List Fragment) (h : head.text ≠ "") :
    (stacked head clauses).text ≠ "" := by
  cases clauses with
  | nil => exact h
  | cons clause rest =>
    intro hempty
    exact h (String.append_eq_empty_iff.mp (String.append_eq_empty_iff.mp hempty).1).1

end Fragment

section Patterns

variable (naming : Naming)

/-- The properties in a pattern refer to their parameters. -/
theorem NodePattern.handles_printProperties (first : Nat) (properties : List (String × Param)) :
    (NodePattern.printProperties naming properties).flatMap Fragment.handles =
      handles first (properties.map fun entry => .param entry.2) := by
  induction properties with
  | nil => rfl
  | cons entry rest ih =>
    rw [NodePattern.printProperties, List.map_cons, List.flatMap_cons]
    exact congrArg (Handle.param entry.2 :: ·) ih

/-- A variable that may be missing is referred to if it is there. -/
theorem handles_optionalFragment (first : Nat) (bound : Option Variable) :
    (optionalFragment naming bound).handles = handles first (bound.toList.map .name) := by
  cases bound <;> rfl

/-- The pattern of a node refers to what its events ask for. -/
theorem NodePattern.handles_print (first : Nat) (node : NodePattern) :
    (node.print naming).handles = handles first node.events := by
  have hproperties := NodePattern.handles_printProperties naming first node.properties
  have htail : (if (NodePattern.printProperties naming node.properties).isEmpty then
      Fragment.words "" else Fragment.words " " ++ Fragment.assemble braces
        (NodePattern.printProperties naming node.properties)).handles =
      handles first (node.properties.map fun entry => .param entry.2) := by
    rw [← hproperties]
    cases NodePattern.printProperties naming node.properties <;> simp
  simp only [NodePattern.print, NodePattern.events, Event.handles_append, Event.pages_map_name,
    Nat.add_zero, ← htail, ← handles_optionalFragment naming]
  simp

/-- The pattern of a relationship refers to what its events ask for. -/
theorem RelationshipPattern.handles_print (first : Nat) (relationship : RelationshipPattern) :
    (relationship.print naming).handles = handles first relationship.events := by
  unfold RelationshipPattern.print RelationshipPattern.events
  rw [← handles_optionalFragment naming]
  cases relationship.direction <;> simp

/-- The hops of a pattern refer to what their events ask for. -/
theorem Pattern.handles_printHops (first : Nat)
    (hops : List (RelationshipPattern × NodePattern)) :
    (Pattern.printHops naming hops).handles = handles first (Pattern.hopEvents hops) := by
  induction hops with
  | nil => rfl
  | cons hop rest ih =>
    simp [Pattern.printHops, Pattern.hopEvents, hop.1.handles_print naming first,
      hop.2.handles_print naming first, RelationshipPattern.events, ih]

/-- A pattern prints the handles of its events. -/
theorem Pattern.handles_print (first : Nat) (pattern : Pattern) :
    (pattern.print naming).handles = handles first pattern.events := by
  simp [Pattern.print, Pattern.events, pattern.start.handles_print naming first,
    Pattern.handles_printHops naming first]

/-- What an item is called refers to what its events ask for. -/
theorem Item.handles_printAlias (first : Nat) (item : Item) :
    (item.printAlias naming).handles = handles first item.aliasEvents := by
  match item with
  | .plain _ => rfl
  | .named _ _ => rfl
  | .aliased e newName =>
    cases e with
    | var v =>
      simp only [Item.printAlias, Item.aliasEvents]
      split <;> rfl
    | _ => rfl

end Patterns

section Trees

variable (width : Nat) (naming : Naming)

/-- A statement that has nothing to say refers to nothing. -/
theorem Statement.handles_eq_nil (first : Nat) (s : Statement)
    (h : (s.print width naming first).text = "") : (s.print width naming first).handles = [] := by
  -- Every clause but a condition and a sort begins with its keyword.
  cases s with
  | matching optional pattern clauses =>
    refine absurd h (Fragment.text_stacked_ne_empty _ (Fragment.text_ne_empty_of_words ?_))
    cases optional <;> decide
  | filtering parts =>
    rw [Statement.print] at h ⊢
    cases hjunction : Fragment.junction "AND" (Predicate.printAll width naming first parts) with
    | none => rfl
    | some printed =>
      rw [hjunction] at h
      exact absurd h (Fragment.text_ne_empty_of_words (by decide))
  | returning distinct items =>
    refine absurd h (Fragment.text_ne_empty_of_words ?_)
    cases distinct <;> decide
  | calling body imports base clauses =>
    refine absurd h (Fragment.text_stacked_ne_empty _ fun hblock => ?_)
    simp [Fragment.block] at hblock
  | passing distinct items clauses =>
    refine absurd h (Fragment.text_stacked_ne_empty _ (Fragment.text_ne_empty_of_words ?_))
    cases distinct <;> decide
  | passingAll distinct clauses =>
    refine absurd h (Fragment.text_stacked_ne_empty _ ?_)
    cases distinct <;> decide
  | ordering keys =>
    rw [Statement.print] at h ⊢
    by_cases hnone : (Statement.printKeys width naming first keys).isEmpty
    · simp [hnone]
    · simp only [hnone, Bool.false_eq_true, if_false] at h
      exact absurd h (Fragment.text_ne_empty_of_words (by decide))
  | skipping count => exact absurd h (Fragment.text_ne_empty_of_words (by decide))
  | limiting count => exact absurd h (Fragment.text_ne_empty_of_words (by decide))

mutual
/-- An expression prints the handles of its events. -/
theorem Expr.handles_print (first : Nat) (e : Expr) :
    (e.print width naming first).handles = handles first e.events := by
  cases e with
  | var v => rfl
  | property v path => rfl
  | param p => rfl
  | literal value => rfl
  | apply function arguments =>
    simp [Expr.print, Expr.events, Expr.handles_printAll first arguments]
  | list items => simp [Expr.print, Expr.events, Expr.handles_printAll first items]
  | map entries => simp [Expr.print, Expr.events, Expr.handles_printEntries first entries]
  | project v entries =>
    simp [Expr.print, Expr.events, handles, MapEntry.handles_printAll first entries]
  | comprehend pattern filter result =>
    have hfilter := Predicate.handles_printOptional first filter
    have hresult := result.handles_print (first + pages (Predicate.eventsOptional filter))
    simp only [Expr.events, Event.handles_append, Pattern.pages_events, Nat.add_zero,
      ← hfilter, Event.pages_append, Nat.zero_add, ← hresult, ← pattern.handles_print naming]
    simp only [Expr.print]
    cases Predicate.printOptional width naming first filter <;> simp [Fragment.optionalHandles]
termination_by structural e

/-- Expressions in a row refer to what their events ask for. -/
theorem Expr.handles_printAll (first : Nat) (es : List Expr) :
    (Expr.printAll width naming first es).flatMap Fragment.handles =
      handles first (Expr.eventsAll es) := by
  cases es with
  | nil => rfl
  | cons e rest =>
    simp [Expr.printAll, Expr.eventsAll, e.handles_print first, Expr.handles_printAll _ rest]
termination_by structural es

/-- The entries of a map refer to what their events ask for. -/
theorem Expr.handles_printEntries (first : Nat) (es : List (String × Expr)) :
    (Expr.printEntries width naming first es).flatMap Fragment.handles =
      handles first (Expr.eventsEntries es) := by
  match es with
  | [] => rfl
  | (_, e) :: rest =>
    simp [Expr.printEntries, Expr.eventsEntries, e.handles_print first,
      Expr.handles_printEntries _ rest]
termination_by structural es

/-- The entries of a projection refer to what their events ask for. -/
theorem MapEntry.handles_printAll (first : Nat) (es : List MapEntry) :
    (MapEntry.printAll width naming first es).flatMap Fragment.handles =
      handles first (MapEntry.eventsAll es) := by
  match es with
  | [] => rfl
  | .stored _ :: rest =>
    simp [MapEntry.printAll, MapEntry.eventsAll, MapEntry.handles_printAll first rest]
  | .computed _ e :: rest =>
    simp [MapEntry.printAll, MapEntry.eventsAll, e.handles_print first,
      MapEntry.handles_printAll _ rest]
termination_by structural es

/-- A predicate prints the handles of its events, so that it has none if it has nothing to say. -/
theorem Predicate.handles_print (first : Nat) (p : Predicate) :
    Fragment.optionalHandles (p.print width naming first) = handles first p.events := by
  cases p with
  | compare comparison left right =>
    have hright := Expr.handles_printOptional (first + pages left.events) right
    simp only [Predicate.print, Predicate.events]
    cases comparison.isUnary <;>
      simp [Fragment.optionalHandles, left.handles_print first, hright]
  | all parts =>
    simp [Predicate.print, Predicate.events, Predicate.handles_printAll first parts]
  | any parts =>
    simp [Predicate.print, Predicate.events, Predicate.handles_printAll first parts]
  | not part =>
    rw [Predicate.events, ← part.handles_print first, Predicate.print]
    cases part.print width naming first <;> rfl
  | exist body =>
    simp [Predicate.print, Predicate.events, Fragment.optionalHandles, body.handles_print first,
      handles]
  | single v list filter =>
    have hfilter := Predicate.handles_printOptional (first + pages list.events) filter
    simp only [Predicate.print, Predicate.events, List.cons_append, handles, Event.handles_append,
      ← hfilter, ← list.handles_print first]
    cases Predicate.printOptional width naming (first + pages list.events) filter <;>
      simp [Fragment.optionalHandles]
termination_by structural p

/-- An expression that may be absent refers to what its events ask for. -/
theorem Expr.handles_printOptional (first : Nat) (e : Option Expr) :
    (Expr.printOptional width naming first e).handles = handles first (Expr.eventsOptional e) := by
  cases e with
  | none => rfl
  | some e => simp [Expr.printOptional, Expr.eventsOptional, e.handles_print first]
termination_by structural e

/-- A predicate that may be absent refers to what its events ask for. -/
theorem Predicate.handles_printOptional (first : Nat) (p : Option Predicate) :
    Fragment.optionalHandles (Predicate.printOptional width naming first p) =
      handles first (Predicate.eventsOptional p) := by
  cases p with
  | none => rfl
  | some p => exact p.handles_print first
termination_by structural p

/-- Predicates in a row refer to what their events ask for. Those that are left out have asked for
nothing. -/
theorem Predicate.handles_printAll (first : Nat) (ps : List Predicate) :
    (Predicate.printAll width naming first ps).flatMap Fragment.handles =
      handles first (Predicate.eventsAll ps) := by
  cases ps with
  | nil => rfl
  | cons p rest =>
    simp [Predicate.printAll, Predicate.eventsAll, p.handles_print first,
      Predicate.handles_printAll _ rest]
termination_by structural ps

/-- Items in a row refer to what their events ask for. -/
theorem Item.handles_printAll (clause : ReadingClause) (first : Nat) (items : List Item) :
    (Item.printAll width naming clause first items).flatMap Fragment.handles =
      handles first (Item.eventsAll clause items) := by
  cases items with
  | nil => rfl
  | cons item rest =>
    simp [Item.printAll, Item.eventsAll, item.handles_print clause first,
      Item.handles_printAll clause _ rest]
termination_by structural items

/-- An item refers to what its events ask for. -/
theorem Item.handles_print (clause : ReadingClause) (first : Nat) (item : Item) :
    (item.print width naming first).handles = handles first (item.events clause) := by
  cases item with
  | plain e =>
    simp [Item.print, Item.events, e.handles_print first,
      Item.handles_printAlias naming (first + pages e.events)]
  | aliased e newName =>
    simp [Item.print, Item.events, e.handles_print first,
      Item.handles_printAlias naming (first + pages e.events)]
  | named e newName =>
    simp [Item.print, Item.events, e.handles_print first,
      Item.handles_printAlias naming (first + pages e.events)]
termination_by structural item

/-- Sort keys refer to what their events ask for. -/
theorem Statement.handles_printKeys (first : Nat) (keys : List (Expr × SortDirection)) :
    (Statement.printKeys width naming first keys).flatMap Fragment.handles =
      handles first (Statement.keyEvents keys) := by
  match keys with
  | [] => rfl
  | (e, _) :: rest =>
    simp [Statement.printKeys, Statement.keyEvents, e.handles_print first,
      Statement.handles_printKeys _ rest]
termination_by structural keys

/-- A statement prints the handles of its events. -/
theorem Statement.handles_print (first : Nat) (s : Statement) :
    (s.print width naming first).handles = handles first s.events := by
  cases s with
  | matching _ pattern clauses =>
    simp [Statement.print, Statement.events, pattern.handles_print naming first,
      Statement.handles_printAll first clauses]
  | filtering parts =>
    rw [Statement.events, ← Predicate.handles_printAll first parts, Statement.print,
      ← Fragment.optionalHandles_junction "AND"]
    cases Fragment.junction "AND" (Predicate.printAll width naming first parts) <;>
      simp [Fragment.optionalHandles]
  | returning _ items =>
    simp [Statement.print, Statement.events, Item.handles_printAll .returning first items]
  | calling body imports base clauses =>
    simp [Statement.print, Statement.events, handles, body.handles_print first,
      Statement.handles_printAll _ clauses, List.flatMap_map, ← List.map_eq_flatMap]
  | passing _ items clauses =>
    simp [Statement.print, Statement.events, Item.handles_printAll .passing first items, handles,
      pages_projectionEvents, Statement.handles_printAll _ clauses]
  | passingAll _ clauses =>
    simp [Statement.print, Statement.events, Statement.handles_printAll first clauses]
  | ordering keys =>
    rw [Statement.events, ← Statement.handles_printKeys first keys, Statement.print]
    cases Statement.printKeys width naming first keys <;> simp
  | skipping count => rfl
  | limiting count => rfl
termination_by structural s

/-- Clauses in a row refer to what their events ask for. Those that are left out have asked for
nothing. -/
theorem Statement.handles_printAll (first : Nat) (ss : List Statement) :
    (Statement.printAll width naming first ss).flatMap Fragment.handles =
      handles first (Statement.eventsAll ss) := by
  cases ss with
  | nil => rfl
  | cons s rest =>
    have hrest := Statement.handles_printAll (first + pages s.events) rest
    simp only [Statement.printAll, Statement.eventsAll, Event.handles_append, ← hrest,
      ← s.handles_print first]
    split
    case isTrue hempty =>
      rw [Statement.handles_eq_nil width naming first s (String.isEmpty_iff.mp hempty),
        List.nil_append]
    case isFalse => rw [List.flatMap_cons]
termination_by structural ss
end

end Trees

end GraphRead
