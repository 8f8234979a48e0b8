import GraphRead.Proofs.Rendering.PlainNames

/-!
# Queries are contained

Labels, keys and aliases are quoted where they are printed, and generated names
are plain. What else a tree brings into the text of a query are the names of
functions and the literals in it. If these are contained, so is the query.
-/

namespace GraphRead

open Event (pages)
open Text (Contained)

namespace Fragment

variable {naming : Naming}

/-- The text of a fragment leads from brackets to brackets if the names in it are contained. -/
def Leads (naming : Naming) (fragment : Fragment) (before after : List Char) : Prop :=
  (∀ handle ∈ fragment.handles, Contained (naming.name handle)) →
    Text.Leads fragment.text before after

/-- The text of a fragment is contained if the names in it are. -/
def Contained (naming : Naming) (fragment : Fragment) : Prop := fragment.Leads naming [] []

variable {fragment first second body : Fragment} {parts : List Fragment}
  {before middle after : List Char}

/-- Words lead where their text leads, since no name is in them. -/
theorem leads_words {text : String} (h : Text.Leads text before after) :
    (words text).Leads naming before after := by
  intro _
  exact h

/-- Words are contained if their text is. -/
theorem contained_words {text : String} (h : Text.Contained text) :
    (words text).Contained naming := leads_words h

/-- Fragments lead one after the other, if the second starts from where the first ends. -/
theorem Leads.append (hfirst : first.Leads naming before middle)
    (hsecond : second.Leads naming middle after) : (first ++ second).Leads naming before after := by
  intro hnames
  rw [handles_append, List.forall_mem_append] at hnames
  exact (hfirst hnames.1).append (hsecond hnames.2)

/-- A contained fragment leaves the open brackets as they are. -/
theorem Contained.leads (h : fragment.Contained naming) (pending : List Char) :
    fragment.Leads naming pending pending := by
  intro hnames
  exact Text.Contained.leads (h hnames) pending

/-- Contained fragments in a row are contained. -/
theorem Contained.append (hfirst : first.Contained naming) (hsecond : second.Contained naming) :
    (first ++ second).Contained naming := Leads.append hfirst hsecond

/-- A contained fragment between words that open and close a bracket. -/
theorem Contained.between {opening closing : String} {pending : List Char}
    (hopening : Text.Leads opening [] pending) (h : fragment.Contained naming)
    (hclosing : Text.Leads closing pending []) :
    (words opening ++ fragment ++ words closing).Contained naming :=
  ((leads_words hopening).append (h.leads pending)).append (leads_words hclosing)

/-- The name of a variable is contained. -/
theorem contained_ofVariable (v : Variable) : (ofVariable naming v).Contained naming := by
  intro hnames
  exact hnames _ List.mem_cons_self

/-- The name of a parameter is contained, with the sign before it. -/
theorem contained_ofParam (p : Param) : (ofParam naming p).Contained naming := by
  intro hnames
  exact Text.Contained.append (by decide) (hnames _ List.mem_cons_self)

/-- The name of a page is contained, with the sign before it. -/
theorem contained_ofPage (number : Nat) (count : UInt64) :
    (ofPage naming number count).Contained naming := by
  intro hnames
  exact Text.Contained.append (by decide) (hnames _ List.mem_cons_self)

/-- Contained fragments whose texts are put together in a way that keeps them contained. -/
theorem contained_assemble {texts : List String → String}
    (htexts : ∀ pieces, (∀ piece ∈ pieces, Text.Contained piece) → Text.Contained (texts pieces))
    (h : ∀ part ∈ parts, part.Contained naming) : (assemble texts parts).Contained naming := by
  intro hnames
  refine htexts _ (List.forall_mem_map.mpr fun part hpart => h part hpart ?_)
  exact fun handle hhandle => hnames handle (List.mem_flatMap.mpr ⟨part, hpart, hhandle⟩)

/-- Contained fragments are contained when joined by a contained separator. -/
theorem contained_join {separator : String} (hseparator : Text.Contained separator)
    (h : ∀ part ∈ parts, part.Contained naming) :
    (assemble (Text.join separator) parts).Contained naming :=
  contained_assemble (fun _ => Text.Contained.join hseparator) h

/-- Contained entries are contained in braces. -/
theorem contained_braces (h : ∀ part ∈ parts, part.Contained naming) :
    (assemble braces parts).Contained naming := by
  refine contained_assemble (fun pieces hpieces => ?_) h
  unfold braces
  split
  · exact show Text.Contained "\x7b \x7d" by decide
  · exact .between (by decide) (.join (by decide) hpieces)
      (show Text.Leads " \x7d" ['\x7d'] [] by decide)

/-- Contained parts of a junction are contained in its parentheses. -/
theorem contained_junction {keyword : String} (hkeyword : Text.Contained (" " ++ keyword ++ " "))
    (h : ∀ part ∈ parts, part.Contained naming) :
    ∀ fragment ∈ junction keyword parts, fragment.Contained naming := by
  match parts, h with
  | [], _ => simp [junction]
  | [part], h =>
    rintro fragment ⟨⟩
    exact h part List.mem_cons_self
  | first :: second :: rest, h =>
    rintro fragment ⟨⟩
    exact .between (show Text.Leads "(" [] [')'] by decide) (contained_join hkeyword h) (by decide)

/-- A contained body is contained in a block, whose lines are only indented. -/
theorem contained_block (width : Nat) {head : String} (hhead : Text.Contained head)
    (h : body.Contained naming) : (block width head body).Contained naming := by
  intro hnames
  have hopen : Text.Leads (head ++ " \x7b\n") [] ['\x7d'] := Text.Leads.append hhead (by decide)
  have hbody : Text.Contained body.text := h hnames
  exact Text.Contained.between hopen (hbody.indent width) (by decide)

/-- Contained fragments are contained when stacked line by line. -/
theorem contained_stacked {head : Fragment} (hhead : head.Contained naming)
    (h : ∀ part ∈ parts, part.Contained naming) : (stacked head parts).Contained naming :=
  contained_join (by decide) (List.forall_mem_cons.mpr ⟨hhead, h⟩)

/-- A contained body is contained after the line of its imports. -/
theorem contained_importing (h : ∀ part ∈ parts, part.Contained naming)
    (hbody : body.Contained naming) : (importing parts body).Contained naming := by
  cases parts with
  | nil => exact hbody
  | cons part rest =>
    exact (((contained_words (by decide)).append (contained_join (by decide) h)).append
      (contained_words (by decide))).append hbody

end Fragment

open Fragment (words assemble ofVariable leads_words contained_words contained_ofVariable
  contained_ofParam contained_ofPage contained_join)

/-- A quoted key is contained, whatever it says. -/
theorem Text.contained_keyed (key : String) : Contained (Identifier.escape key ++ ": ") :=
  (Text.contained_escape key).append (by decide)

section Patterns

variable (naming : Naming)

/-- A variable that may be missing is contained. -/
theorem contained_optionalFragment (bound : Option Variable) :
    (optionalFragment naming bound).Contained naming := by
  cases bound with
  | none => exact contained_words (by decide)
  | some v => exact contained_ofVariable v

/-- The pattern of a node is contained, with its labels quoted. -/
theorem NodePattern.contained_print (node : NodePattern) :
    (node.print naming).Contained naming := by
  have hlabels : Contained
      (String.join (node.labels.map fun label => ":" ++ Identifier.escape label)) :=
    .concat (List.forall_mem_map.mpr fun label _ =>
      .append (by decide) (Text.contained_escape label))
  have hproperties : ∀ part ∈ printProperties naming node.properties, part.Contained naming :=
    List.forall_mem_map.mpr fun entry _ =>
      (contained_words (Text.contained_keyed entry.1)).append (contained_ofParam entry.2)
  have htail : Fragment.Contained naming
      (if (printProperties naming node.properties).isEmpty then words ""
        else words " " ++ assemble braces (printProperties naming node.properties)) := by
    split
    · exact contained_words (by decide)
    · exact (contained_words (by decide)).append (Fragment.contained_braces hproperties)
  -- The parenthesis stays open over the name, the labels and the properties.
  have hopen : (words "(").Leads naming [] [')'] := leads_words (by decide)
  have hclose : (words ")").Leads naming [')'] [] := leads_words (by decide)
  have hbound := contained_optionalFragment naming node.bound
  exact (((hopen.append (hbound.leads _)).append ((contained_words hlabels).leads _)).append
    (htail.leads _)).append hclose

/-- The pattern of a relationship is contained. Its arrow has brackets that are closed in it. -/
theorem RelationshipPattern.contained_print (relationship : RelationshipPattern) :
    (relationship.print naming).Contained naming := by
  have htype : Contained
      ((relationship.type.map fun type => ":" ++ Identifier.escape type).getD "") := by
    cases relationship.type with
    | none => exact show Contained "" by decide
    | some type => exact .append (by decide) (Text.contained_escape type)
  have hopen : (words "[").Leads naming [] [']'] := leads_words (by decide)
  have hclose : (words "]").Leads naming [']'] [] := leads_words (by decide)
  have hbound := contained_optionalFragment naming relationship.bound
  have hinner := ((hopen.append (hbound.leads _)).append
    ((contained_words htype).leads _)).append hclose
  unfold RelationshipPattern.print
  cases relationship.direction with
  | outgoing | incoming | undirected =>
    exact ((contained_words (by decide)).append hinner).append (contained_words (by decide))

/-- A pattern is contained. -/
theorem Pattern.contained_print (pattern : Pattern) : (pattern.print naming).Contained naming := by
  refine (pattern.start.contained_print naming).append ?_
  induction pattern.hops with
  | nil => exact contained_words (by decide)
  | cons hop rest ih =>
    exact ((hop.1.contained_print naming).append (hop.2.contained_print naming)).append ih

/-- What an item is called is contained. -/
theorem Item.contained_printAlias (item : Item) : (item.printAlias naming).Contained naming := by
  have halias (newName : Variable) :
      (words " AS " ++ ofVariable naming newName).Contained naming :=
    (contained_words (by decide)).append (contained_ofVariable newName)
  fun_cases Item.printAlias naming item with
  | case1 | case3 => exact contained_words (by decide)
  | case2 => exact (contained_words (by decide)).append (contained_words (Text.contained_escape _))
  | case4 | case5 => exact halias _

end Patterns

mutual
/-- The functions and the literals of an expression are contained. -/
def Expr.Harmless : Expr → Prop
  | .literal value => Contained (Literal.write value)
  | .apply function arguments => Contained function ∧ Expr.AllHarmless arguments
  | .list items => Expr.AllHarmless items
  | .map entries => Expr.EntriesHarmless entries
  | .project _ entries => MapEntry.AllHarmless entries
  | .comprehend _ filter result => Predicate.OptionalHarmless filter ∧ result.Harmless
  | .var _ | .property _ _ | .param _ => True
termination_by structural e => e

/-- The functions and the literals of expressions are contained. -/
def Expr.AllHarmless : List Expr → Prop
  | [] => True
  | e :: rest => e.Harmless ∧ Expr.AllHarmless rest
termination_by structural es => es

/-- The functions and the literals in a map are contained. -/
def Expr.EntriesHarmless : List (String × Expr) → Prop
  | [] => True
  | (_, e) :: rest => e.Harmless ∧ Expr.EntriesHarmless rest
termination_by structural es => es

/-- The functions and the literals in entries of a projection are contained. -/
def MapEntry.AllHarmless : List MapEntry → Prop
  | [] => True
  | .stored _ :: rest => MapEntry.AllHarmless rest
  | .computed _ e :: rest => e.Harmless ∧ MapEntry.AllHarmless rest
termination_by structural es => es

/-- The functions and the literals of a predicate are contained. -/
def Predicate.Harmless : Predicate → Prop
  | .compare _ left right => left.Harmless ∧ Expr.OptionalHarmless right
  | .all parts => Predicate.AllHarmless parts
  | .any parts => Predicate.AllHarmless parts
  | .not part => part.Harmless
  | .exist body => body.Harmless
  | .single _ list filter => list.Harmless ∧ Predicate.OptionalHarmless filter
termination_by structural p => p

/-- The functions and the literals of an expression are contained, if there is one. -/
def Expr.OptionalHarmless : Option Expr → Prop
  | none => True
  | some e => e.Harmless
termination_by structural e => e

/-- The functions and the literals of a predicate are contained, if there is one. -/
def Predicate.OptionalHarmless : Option Predicate → Prop
  | none => True
  | some p => p.Harmless
termination_by structural p => p

/-- The functions and the literals of predicates are contained. -/
def Predicate.AllHarmless : List Predicate → Prop
  | [] => True
  | p :: rest => p.Harmless ∧ Predicate.AllHarmless rest
termination_by structural ps => ps

/-- The functions and the literals of items are contained. -/
def Item.AllHarmless : List Item → Prop
  | [] => True
  | item :: rest => item.Harmless ∧ Item.AllHarmless rest
termination_by structural items => items

/-- The functions and the literals of an item are contained. -/
def Item.Harmless : Item → Prop
  | .plain e => e.Harmless
  | .aliased e _ => e.Harmless
  | .named e _ => e.Harmless
termination_by structural item => item

/-- The functions and the literals of sort keys are contained. -/
def Statement.KeysHarmless : List (Expr × SortDirection) → Prop
  | [] => True
  | (e, _) :: rest => e.Harmless ∧ Statement.KeysHarmless rest
termination_by structural keys => keys

/-- The functions and the literals of a statement are contained. -/
def Statement.Harmless : Statement → Prop
  | .matching _ _ clauses => Statement.AllHarmless clauses
  | .filtering parts => Predicate.AllHarmless parts
  | .returning _ items => Item.AllHarmless items
  | .calling body _ _ clauses => body.Harmless ∧ Statement.AllHarmless clauses
  | .passing _ items clauses => Item.AllHarmless items ∧ Statement.AllHarmless clauses
  | .passingAll _ clauses => Statement.AllHarmless clauses
  | .ordering keys => Statement.KeysHarmless keys
  | .skipping _ | .limiting _ => True
termination_by structural s => s

/-- The functions and the literals of clauses are contained. -/
def Statement.AllHarmless : List Statement → Prop
  | [] => True
  | s :: rest => s.Harmless ∧ Statement.AllHarmless rest
termination_by structural ss => ss
end

/-- A contained keyword is so with a restriction to distinct rows. -/
theorem contained_withDistinct {keyword : String} (h : Contained keyword) (distinct : Bool) :
    Contained (withDistinct keyword distinct ++ " ") := by
  cases distinct with
  | false => exact h.append (by decide)
  | true =>
    have hwords : Contained " DISTINCT" := by decide
    exact (h.append hwords).append (by decide)

/-- The negation of a contained text is contained, in parentheses or not. -/
theorem contained_negated (p : Predicate) {text : String} (h : Contained text) :
    Contained (negated p text) := by
  unfold negated
  split
  · exact .append (by decide) h
  · exact .between (show Text.Leads "NOT (" [] [')'] by decide) h (by decide)

section Trees

variable (width : Nat) (naming : Naming)

mutual
/-- A harmless expression has a contained text. -/
theorem Expr.contained_print (first : Nat) (e : Expr) (h : e.Harmless) :
    (e.print width naming first).Contained naming := by
  cases e with
  | var v => exact contained_ofVariable v
  | property v path =>
    refine (contained_ofVariable v).append (contained_words (.concat ?_))
    exact List.forall_mem_map.mpr fun key _ => .append (by decide) (Text.contained_escape key)
  | param p => exact contained_ofParam p
  | literal value => exact contained_words h
  | apply function arguments =>
    have hopen : Text.Leads (function ++ "(") [] [')'] := Text.Leads.append h.1 (by decide)
    have harguments := Expr.contained_printAll first arguments h.2
    exact .between hopen (contained_join (by decide) harguments) (by decide)
  | list items =>
    have hopen : Text.Leads "[" [] [']'] := by decide
    have hitems := Expr.contained_printAll first items h
    exact .between hopen (contained_join (by decide) hitems) (by decide)
  | map entries => exact Fragment.contained_braces (Expr.contained_printEntries first entries h)
  | project v entries =>
    have hbraces := Fragment.contained_braces (MapEntry.contained_printAll first entries h)
    exact ((contained_ofVariable v).append (contained_words (by decide))).append hbraces
  | comprehend pattern filter result =>
    have hfilter := Predicate.contained_printOptional first filter h.1
    have hresult := result.contained_print (first + pages (Predicate.eventsOptional filter)) h.2
    have hstart : (words "[" ++ pattern.print naming).Leads naming [] [']'] :=
      (leads_words (by decide)).append ((pattern.contained_print naming).leads _)
    have hbar : (words " | ").Leads naming [']'] [']'] := leads_words (by decide)
    have hclose : (words "]").Leads naming [']'] [] := leads_words (by decide)
    rw [Expr.print]
    cases hprinted : Predicate.printOptional width naming first filter with
    | none => exact ((hstart.append hbar).append (hresult.leads _)).append hclose
    | some condition =>
      have hwhere : (words " WHERE ").Leads naming [']'] [']'] := leads_words (by decide)
      exact ((((hstart.append hwhere).append ((hfilter condition hprinted).leads _)).append
        hbar).append (hresult.leads _)).append hclose
termination_by structural e

/-- Harmless expressions in a row are contained. -/
theorem Expr.contained_printAll (first : Nat) (es : List Expr) (h : Expr.AllHarmless es) :
    ∀ part ∈ Expr.printAll width naming first es, part.Contained naming := by
  cases es with
  | nil => simp [Expr.printAll]
  | cons e rest =>
    rw [Expr.printAll, List.forall_mem_cons]
    exact ⟨e.contained_print first h.1, Expr.contained_printAll _ rest h.2⟩
termination_by structural es

/-- Harmless entries of a map are contained, with their keys quoted. -/
theorem Expr.contained_printEntries (first : Nat) (es : List (String × Expr))
    (h : Expr.EntriesHarmless es) :
    ∀ part ∈ Expr.printEntries width naming first es,
      part.Contained naming := by
  match es with
  | [] => simp [Expr.printEntries]
  | (key, e) :: rest =>
    have hkey := Text.contained_keyed key
    rw [Expr.printEntries, List.forall_mem_cons]
    exact ⟨(contained_words hkey).append (e.contained_print first h.1),
      Expr.contained_printEntries _ rest h.2⟩
termination_by structural es

/-- Harmless entries of a projection are contained, with their keys quoted. -/
theorem MapEntry.contained_printAll (first : Nat) (es : List MapEntry)
    (h : MapEntry.AllHarmless es) :
    ∀ part ∈ MapEntry.printAll width naming first es,
      part.Contained naming := by
  match es with
  | [] => simp [MapEntry.printAll]
  | .stored key :: rest =>
    have hkey : Contained ("." ++ Identifier.escape key) :=
      .append (by decide) (Text.contained_escape key)
    rw [MapEntry.printAll, List.forall_mem_cons]
    exact ⟨contained_words hkey, MapEntry.contained_printAll first rest h⟩
  | .computed key e :: rest =>
    have hkey := Text.contained_keyed key
    rw [MapEntry.printAll, List.forall_mem_cons]
    exact ⟨(contained_words hkey).append (e.contained_print first h.1),
      MapEntry.contained_printAll _ rest h.2⟩
termination_by structural es

/-- A harmless predicate has a contained text, if it has one. -/
theorem Predicate.contained_print (first : Nat) (p : Predicate) (h : p.Harmless) :
    ∀ fragment ∈ p.print width naming first, fragment.Contained naming := by
  cases p with
  | compare comparison left right =>
    have hsymbol : Contained comparison.symbol := by cases comparison <;> decide
    have hleft : (left.print width naming first ++ words " "
        ++ words comparison.symbol).Contained naming :=
      ((left.contained_print first h.1).append (contained_words (by decide))).append
        (contained_words hsymbol)
    rw [Predicate.print]
    split
    · rintro fragment ⟨⟩
      exact hleft
    · rintro fragment ⟨⟩
      exact hleft.append (Expr.contained_printOptional _ right h.2)
  | all parts =>
    exact Fragment.contained_junction (by decide) (Predicate.contained_printAll first parts h)
  | any parts =>
    exact Fragment.contained_junction (by decide) (Predicate.contained_printAll first parts h)
  | not part =>
    rw [Predicate.print]
    intro fragment hfragment hnames
    obtain ⟨inner, hinner, rfl⟩ := Option.map_eq_some_iff.mp hfragment
    exact contained_negated part (part.contained_print first h inner hinner hnames)
  | exist body =>
    rintro fragment ⟨⟩
    exact Fragment.contained_block width (by decide) (body.contained_print first h)
  | single v list filter =>
    have hfilter := Predicate.contained_printOptional (first + pages list.events) filter h.2
    have hcondition : ((Predicate.printOptional width naming (first + pages list.events)
        filter).getD (words "true")).Contained naming := by
      cases hprinted : Predicate.printOptional width naming (first + pages list.events) filter with
      | none => exact contained_words (by decide)
      | some condition => exact hfilter condition hprinted
    have hopen : (words "single(").Leads naming [] [')'] := leads_words (by decide)
    have hin : (words " IN ").Leads naming [')'] [')'] := leads_words (by decide)
    have hwhere : (words " WHERE ").Leads naming [')'] [')'] := leads_words (by decide)
    rintro fragment ⟨⟩
    have hlist := list.contained_print first h.1
    have hnamed := (hopen.append ((contained_ofVariable v).leads _)).append hin
    exact (((hnamed.append (hlist.leads _)).append hwhere).append (hcondition.leads _)).append
      (leads_words (by decide))
termination_by structural p

/-- A harmless expression is contained, if there is one. -/
theorem Expr.contained_printOptional (first : Nat) (e : Option Expr) (h : Expr.OptionalHarmless e) :
    (Expr.printOptional width naming first e).Contained naming := by
  cases e with
  | none => exact contained_words (by decide)
  | some e => exact (contained_words (by decide)).append (e.contained_print first h)
termination_by structural e

/-- A harmless predicate is contained, if there is one. -/
theorem Predicate.contained_printOptional (first : Nat) (p : Option Predicate)
    (h : Predicate.OptionalHarmless p) :
    ∀ fragment ∈ Predicate.printOptional width naming first p, fragment.Contained naming := by
  cases p with
  | none => simp [Predicate.printOptional]
  | some p => exact p.contained_print first h
termination_by structural p

/-- Harmless predicates in a row are contained. -/
theorem Predicate.contained_printAll (first : Nat) (ps : List Predicate)
    (h : Predicate.AllHarmless ps) :
    ∀ part ∈ Predicate.printAll width naming first ps,
      part.Contained naming := by
  cases ps with
  | nil => simp [Predicate.printAll]
  | cons p rest =>
    rw [Predicate.printAll, List.forall_mem_append]
    refine ⟨fun part hpart => ?_, Predicate.contained_printAll _ rest h.2⟩
    exact p.contained_print first h.1 part (Option.mem_toList.mp hpart)
termination_by structural ps

/-- Harmless items in a row are contained, with what they are called. -/
theorem Item.contained_printAll (clause : ReadingClause) (first : Nat) (items : List Item)
    (h : Item.AllHarmless items) :
    ∀ part ∈ Item.printAll width naming clause first items,
      part.Contained naming := by
  cases items with
  | nil => simp [Item.printAll]
  | cons item rest =>
    rw [Item.printAll, List.forall_mem_cons]
    exact ⟨item.contained_print first h.1, Item.contained_printAll clause _ rest h.2⟩
termination_by structural items

/-- A harmless item is contained. -/
theorem Item.contained_print (first : Nat) (item : Item) (h : item.Harmless) :
    (item.print width naming first).Contained naming := by
  cases item with
  | plain e => exact (e.contained_print first h).append (Item.contained_printAlias naming _)
  | aliased e _ => exact (e.contained_print first h).append (Item.contained_printAlias naming _)
  | named e _ => exact (e.contained_print first h).append (Item.contained_printAlias naming _)
termination_by structural item

/-- Harmless sort keys are contained. -/
theorem Statement.contained_printKeys (first : Nat) (keys : List (Expr × SortDirection))
    (h : Statement.KeysHarmless keys) :
    ∀ part ∈ Statement.printKeys width naming first keys,
      part.Contained naming := by
  match keys with
  | [] => simp [Statement.printKeys]
  | (e, direction) :: rest =>
    have hdirection : Contained direction.keyword := by cases direction <;> decide
    rw [Statement.printKeys, List.forall_mem_cons]
    refine ⟨?_, Statement.contained_printKeys _ rest h.2⟩
    exact ((e.contained_print first h.1).append (contained_words (by decide))).append
      (contained_words hdirection)
termination_by structural keys

/-- A harmless statement has a contained text. -/
theorem Statement.contained_print (first : Nat) (s : Statement) (h : s.Harmless) :
    (s.print width naming first).Contained naming := by
  cases s with
  | matching optional pattern clauses =>
    have hkeyword : Contained (if optional then "OPTIONAL MATCH " else "MATCH ") := by
      cases optional <;> decide
    have hhead := (contained_words hkeyword).append (pattern.contained_print naming)
    exact Fragment.contained_stacked hhead (Statement.contained_printAll first clauses h)
  | filtering parts =>
    have hjunction : ∀ printed ∈ Fragment.junction "AND"
        (Predicate.printAll width naming first parts), printed.Contained naming :=
      Fragment.contained_junction (by decide) (Predicate.contained_printAll first parts h)
    rw [Statement.print]
    cases hprinted : Fragment.junction "AND" (Predicate.printAll width naming first parts) with
    | none => exact contained_words (by decide)
    | some printed => exact (contained_words (by decide)).append (hjunction printed hprinted)
  | returning distinct items =>
    have hkeyword : Contained (withDistinct "RETURN" distinct ++ " ") :=
      contained_withDistinct (by decide) distinct
    have hitems := Item.contained_printAll .returning first items h
    exact (contained_words hkeyword).append (contained_join (by decide) hitems)
  | calling body imports base clauses =>
    have hclauses := Statement.contained_printAll (first + pages body.events) clauses h.2
    refine Fragment.contained_stacked (Fragment.contained_block width (by decide) ?_) hclauses
    refine Fragment.contained_importing ?_ (body.contained_print first h.1)
    exact List.forall_mem_map.mpr fun v _ => contained_ofVariable v
  | passing distinct items clauses =>
    have hkeyword : Contained (withDistinct "WITH" distinct ++ " ") :=
      contained_withDistinct (by decide) distinct
    have hitems := Item.contained_printAll .passing first items h.1
    refine Fragment.contained_stacked ?_ (Statement.contained_printAll _ clauses h.2)
    exact (contained_words hkeyword).append (contained_join (by decide) hitems)
  | passingAll distinct clauses =>
    have hkeyword : Contained (withDistinct "WITH" distinct ++ " *") := by
      cases distinct <;> decide
    have hclauses := Statement.contained_printAll first clauses h
    exact Fragment.contained_stacked (contained_words hkeyword) hclauses
  | ordering keys =>
    have hkeys := Statement.contained_printKeys first keys h
    rw [Statement.print]
    split
    · exact contained_words (by decide)
    · exact (contained_words (by decide)).append (contained_join (by decide) hkeys)
  | skipping count => exact (contained_words (by decide)).append (contained_ofPage first count)
  | limiting count => exact (contained_words (by decide)).append (contained_ofPage first count)
termination_by structural s

/-- Harmless clauses in a row are contained. -/
theorem Statement.contained_printAll (first : Nat) (ss : List Statement)
    (h : Statement.AllHarmless ss) :
    ∀ part ∈ Statement.printAll width naming first ss,
      part.Contained naming := by
  cases ss with
  | nil => simp [Statement.printAll]
  | cons s rest =>
    have hrest := Statement.contained_printAll (first + pages s.events) rest h.2
    rw [Statement.printAll]
    split
    · exact hrest
    · rw [List.forall_mem_cons]
      exact ⟨s.contained_print first h.1, hrest⟩
termination_by structural ss
end

end Trees

/-- A harmless statement whose fixed names are plain has a contained query. -/
theorem Statement.contained_of_build {statement : Statement} {options : RenderOptions}
    {query : Query} (hoptions : options.Plain) (hevents : ∀ event ∈ statement.events, event.Plain)
    (hstatement : statement.Harmless) (h : statement.build options = .ok query) :
    Contained query.text := by
  obtain ⟨pageNames, after, hrun, htext, -⟩ := printed_of_build h
  have hnames := isPlain_name hoptions hevents hrun (after.naming_agrees pageNames)
    (after.naming_agreesFrom pageNames)
  rw [htext]
  exact statement.contained_print _ _ 0 hstatement fun handle hhandle =>
    Text.contained_of_isPlain (hnames handle hhandle)

end GraphRead
