import GraphRead.Proofs.Rendering.Print
import GraphRead.Proofs.Rendering.Step

/-!
# Rendering refines printing

Rendering chooses names while it goes on; printing has them beforehand. This file
proves that rendering a tree runs the events of the tree, and that the text is the
one printed under every naming that agrees with the context left behind. The
statement is composed step by step along the renderer, so that every kind of tree
contributes one short case.
-/

namespace GraphRead

open Event Context

namespace Naming

/-- A naming has the names that a context remembers. -/
structure Agrees (naming : Naming) (context : Context) : Prop where
  var : ∀ {v name}, context.variableNames.lookup v = some name → naming.var v = name
  param : ∀ {p name}, context.paramNames.lookup p = some name → naming.param p = name

/-- A naming has the given names for the pages from `first` on. -/
def AgreesFrom (naming : Naming) (first : Nat) (names : List String) : Prop :=
  ∀ i name, names[i]? = some name → naming.page (first + i) = name

variable {naming : Naming}

/-- Agreement with a later context is agreement with an earlier one. -/
theorem Agrees.of_extends {before after : Context} (h : naming.Agrees after)
    (hext : before.Extends after) : naming.Agrees before where
  var hv := h.var (hext.var hv)
  param hp := h.param (hext.param hp)

/-- A naming has the names of the first pages. -/
theorem AgreesFrom.left {first : Nat} {before after : List String}
    (h : naming.AgreesFrom first (before ++ after)) : naming.AgreesFrom first before := by
  intro i name hi
  have hlt : i < before.length := (List.getElem?_eq_some_iff.mp hi).1
  exact h i name (by rw [List.getElem?_append_left hlt, hi])

/-- A naming has the names of the later pages. -/
theorem AgreesFrom.right {first : Nat} {before after : List String}
    (h : naming.AgreesFrom first (before ++ after)) :
    naming.AgreesFrom (first + before.length) after := by
  intro i name hi
  rw [Nat.add_assoc]
  refine h (before.length + i) name ?_
  rw [List.getElem?_append_right (by omega), Nat.add_sub_cancel_left, hi]

end Naming

/-- The naming that a run leaves behind: the names in the context, and those of the pages. -/
def Context.naming (context : Context) (pageNames : List String) : Naming where
  var v := (context.variableNames.lookup v).getD ""
  param p := (context.paramNames.lookup p).getD ""
  page number := pageNames[number]?.getD ""

/-- The naming that a run leaves behind has the names in the context. -/
theorem Context.naming_agrees (context : Context) (pageNames : List String) :
    (context.naming pageNames).Agrees context where
  var h := by simp [naming, h]
  param h := by simp [naming, h]

/-- The naming that a run leaves behind has the names of the pages. -/
theorem Context.naming_agreesFrom (context : Context) (pageNames : List String) :
    (context.naming pageNames).AgreesFrom 0 pageNames := by
  intro i name hi
  simp [naming, hi]

/-- Rendering runs the events and gives the value, whatever names it chooses. The value is computed
from any naming that agrees with the context left behind, and from the number of pages before. -/
structure Traced {α : Type} (options : RenderOptions) (m : Render α) (events : List Event)
    (value : Naming → Nat → α) : Prop where
  ok : ∀ {context after : Context} {names : List String}, context.options = options →
    runAll events context = .ok (names, after) →
    ∃ x, m.result context = (.ok x, after) ∧ ∀ naming first,
      naming.Agrees after → naming.AgreesFrom first names → value naming first = x
  error : ∀ {context : Context} {error : BuildError}, context.options = options →
    runAll events context = .error error → (m.result context).1 = .error error

namespace Traced

variable {α β : Type} {options : RenderOptions}

/-- The value may be given in another form. -/
theorem congr {m : Render α} {events : List Event} {value value' : Naming → Nat → α}
    (h : Traced options m events value)
    (hvalue : ∀ naming first, value naming first = value' naming first) :
    Traced options m events value' := by
  have heq : value = value' := funext fun naming => funext (hvalue naming)
  exact heq ▸ h

/-- Returning a value runs no events. -/
theorem pure (a : α) : Traced options (Pure.pure a) [] fun _ _ => a where
  ok _ h := by
    simp only [runAll, Except.ok.injEq, Prod.mk.injEq] at h
    exact ⟨a, by rw [Render.result_pure, h.2], fun _ _ _ _ => rfl⟩
  error _ h := by simp [runAll] at h

/-- Steps are composed by running the events of the one after those of the other. What a later
step does to the context must not depend on the text of an earlier one. -/
theorem bind {m : Render α} {f : α → Render β} {first second : List Event}
    {value : Naming → Nat → α} {next : α → Naming → Nat → β} (hm : Traced options m first value)
    (hf : ∀ a, Traced options (f a) second (next a)) :
    Traced options (m >>= f) (first ++ second) fun naming number =>
      next (value naming number) naming (number + pages first) where
  ok {context last names} ho h := by
    rw [runAll_append] at h
    obtain ⟨before, after, middle, hfirst, hsecond, rfl⟩ := RunResult.andThen_eq_ok h
    obtain ⟨a, ha, hvalue⟩ := hm.ok ho hfirst
    have hext := runAll_extends hfirst
    obtain ⟨b, hb, hnext⟩ := (hf a).ok (hext.options.trans ho) hsecond
    refine ⟨b, by rw [Render.result_bind_ok ha, hb], fun naming number hagrees hpages => ?_⟩
    rw [hvalue naming number (hagrees.of_extends (runAll_extends hsecond)) hpages.left]
    refine hnext naming _ hagrees ?_
    rw [← runAll_length hfirst]
    exact hpages.right
  error {context error} ho h := by
    rw [runAll_append] at h
    cases hfirst : runAll first context with
    | error e =>
      rw [hfirst, RunResult.andThen_error] at h
      rw [Except.error.inj h] at hfirst
      exact Render.result_bind_error (hm.error ho hfirst) f
    | ok result =>
      obtain ⟨before, middle⟩ := result
      obtain ⟨a, ha, -⟩ := hm.ok ho hfirst
      have hsecond : runAll second middle = .error error := by
        rw [hfirst, RunResult.andThen_ok] at h
        cases hrest : runAll second middle with
        | error e => simpa [hrest, Except.map] using h
        | ok result => simp [hrest, Except.map] at h
      rw [Render.result_bind_ok ha]
      exact (hf a).error ((runAll_extends hfirst).options.trans ho) hsecond

/-- A last step that only computes a value. -/
theorem andReturn {m : Render α} {events : List Event} {value : Naming → Nat → α}
    (hm : Traced options m events value) (g : α → β) :
    Traced options (m >>= fun a => Pure.pure (g a)) events fun naming first =>
      g (value naming first) := by
  have h := hm.bind fun a => Traced.pure (g a)
  rwa [List.append_nil] at h

/-- A step may look at the options in the context, which never change. -/
theorem bindGet {f : Context → Render β} {events : List Event} {value : Naming → Nat → β}
    (hf : ∀ context, context.options = options → Traced options (f context) events value) :
    Traced options (get >>= f) events value where
  ok {context after names} ho h := by
    rw [Render.result_bind_ok (Render.result_get context)]
    exact (hf context ho).ok ho h
  error {context error} ho h := by
    rw [Render.result_bind_ok (Render.result_get context)]
    exact (hf context ho).error ho h

/-- An operation on the context alone, as an event. -/
theorem lift (m : StateM Context α) (event : Event) (value : Naming → Nat → α)
    (hrun : ∀ context, ∃ names, event.run context = .ok (names, (m.run context).2) ∧
      ∀ naming first, naming.Agrees (m.run context).2 → naming.AgreesFrom first names →
        value naming first = (m.run context).1) :
    Traced options (liftM m : Render α) [event] value where
  ok {context after names} _ h := by
    obtain ⟨given, hevent, hvalue⟩ := hrun context
    simp only [runAll, hevent, RunResult.andThen_ok, Except.map, List.append_nil, Except.ok.injEq,
      Prod.mk.injEq] at h
    obtain ⟨rfl, rfl⟩ := h
    exact ⟨_, Render.result_lift m context, hvalue⟩
  error {context error} _ h := by
    obtain ⟨given, hevent, -⟩ := hrun context
    simp [runAll, hevent, RunResult.andThen_ok, Except.map] at h

/-- Asking for a variable gives the name that it has in the end, since names once given stay. -/
theorem name (v : Variable) :
    Traced options (liftM (variableName v) : Render String) [.name v] fun naming _ =>
      naming.name (.var v) := by
  refine lift _ _ _ fun context => ⟨[], rfl, fun naming first hagrees _ => ?_⟩
  cases hname : v.name with
  | some name => simp [Naming.name, hname, run_variableName_fixed hname]
  | none =>
    simp only [Naming.name, hname, Option.getD_none]
    cases hlookup : context.variableNames.lookup v with
    | some name =>
      rw [run_variableName_some hname hlookup] at hagrees ⊢
      exact hagrees.var hlookup
    | none =>
      rw [run_variableName_none hname hlookup] at hagrees ⊢
      exact hagrees.var List.lookup_cons_self

/-- Asking for a parameter gives the name that it has in the end. -/
theorem param (p : Param) :
    Traced options p.render [.param p] fun naming _ => "$" ++ naming.name (.param p) := by
  refine Traced.andReturn (lift (paramName p) (.param p) (fun naming _ => naming.name (.param p))
    fun context => ⟨[], rfl, fun naming first hagrees _ => ?_⟩) ("$" ++ ·)
  simp only [Naming.name]
  cases hlookup : context.paramNames.lookup p with
  | some name =>
    rw [run_paramName_some hlookup] at hagrees ⊢
    exact hagrees.param hlookup
  | none =>
    rw [run_paramName_none hlookup] at hagrees ⊢
    exact hagrees.param List.lookup_cons_self

/-- A page is bound under a name of its own. -/
theorem page (count : UInt64) :
    Traced options (liftM (bindValue (.ofNat count.toNat)) : Render String) [.page count]
      fun naming first => naming.name (.page first count) := by
  refine lift _ _ _ fun context => ⟨_, rfl, fun naming first _ hpages => ?_⟩
  exact hpages 0 _ rfl

/-- Declaring variables runs their declarations. -/
theorem declareAll (vs : List Variable) :
    Traced options (liftM (Context.declareAll vs) : Render Unit) (vs.map .declare)
      fun _ _ => () := by
  induction vs with
  | nil => exact Traced.pure ()
  | cons v rest ih =>
    have hdeclare : Traced options (liftM (declare v) : Render Unit) [.declare v] fun _ _ => () :=
      lift _ _ _ fun _ => ⟨[], rfl, fun _ _ _ _ => rfl⟩
    exact hdeclare.bind fun _ => ih

/-- Retaining variables runs one event. -/
theorem retain (vs : List Variable) :
    Traced options (liftM (Context.retain vs) : Render Unit) [.retain vs] fun _ _ => () := by
  refine lift _ _ _ fun context => ?_
  exact ⟨[], rfl, fun _ _ _ _ => rfl⟩

/-- Asking for variables in a row gives their names. -/
theorem variableNamesOf (vs : List Variable) :
    Traced options (liftM (Context.variableNamesOf vs) : Render (List String)) (vs.map .name)
      fun naming _ => vs.map fun v => naming.name (.var v) := by
  induction vs with
  | nil => exact Traced.pure []
  | cons v rest ih =>
    exact Traced.bind (name v) fun text => ih.andReturn (text :: ·)

/-- A variable that a clause reads has to be declared. -/
theorem require (clause : ReadingClause) (v : Variable) :
    Traced options (Context.require clause v) [.require clause v] fun _ _ => () := by
  have hresult (context : Context) : (Context.require clause v).result context =
      if context.isDeclared v then (.ok (), context)
      else (.error (.undeclared ((variableName v).run context).1 clause),
        ((variableName v).run context).2) := by
    unfold Context.require
    rw [Render.result_bind_ok (Render.result_get context)]
    split
    · rfl
    · rfl
  constructor
  · intro context after names _ h
    by_cases hdeclared : context.isDeclared v
    · simp only [runAll, run, hdeclared, if_true, RunResult.ok_nil_andThen, Except.ok.injEq,
        Prod.mk.injEq] at h
      exact ⟨(), by rw [hresult, if_pos hdeclared, h.2], fun _ _ _ _ => rfl⟩
    · simp [runAll, run, hdeclared] at h
  · intro context error _ h
    by_cases hdeclared : context.isDeclared v
    · simp [runAll, run, hdeclared] at h
    · rw [hresult, if_neg hdeclared]
      simpa [runAll, run, hdeclared] using h

/-- Requiring variables fails at the first one that is not declared, as the events do. -/
theorem requireAll (clause : ReadingClause) (vs : List Variable) :
    Traced options (Context.requireAll clause vs) (vs.map (.require clause)) fun _ _ => () := by
  induction vs with
  | nil => exact Traced.pure ()
  | cons v rest ih => exact (require clause v).bind fun _ => ih

/-- A projection without items is rejected. -/
theorem projection (clause : ReadingClause) (items : List Item) {texts : Render (List String)}
    {events : List Event} {value : Naming → Nat → List String}
    (h : Traced options texts events value) :
    Traced options (GraphRead.projection clause items texts)
      (projectionEvents clause items events)
      fun naming first => Text.join ", " (value naming first) := by
  unfold GraphRead.projection projectionEvents
  split
  · constructor
    · intro context after names _ hrun
      simp [runAll, run] at hrun
    · intro context error _ hrun
      simpa [runAll, run] using hrun
  · exact h.andReturn (Text.join ", ")

/-- Rendering between the opening and the closing of a scope. -/
theorem within {body : Render α} {events : List Event} {value : Naming → Nat → α}
    (hbody : Traced options body events value) {opening : Event} {enclosed : Render α}
    {enter : Context → Context}
    (hopening : ∀ context, context.options = options →
      opening.run context = .ok ([], enter context) ∧ (enter context).options = options)
    (henclosed : ∀ context, context.options = options → enclosed.result context =
      ((body.result (enter context)).1, (body.result (enter context)).2.leave)) :
    Traced options enclosed (opening :: events ++ [.close]) value := by
  -- The body runs between entering and leaving. Neither forgets a name.
  have hrun (context : Context) (ho : context.options = options) :
      runAll (opening :: events ++ [.close]) context =
        (runAll events (enter context)).map fun result => (result.1, result.2.leave) := by
    rw [List.cons_append, runAll, (hopening context ho).1, RunResult.ok_nil_andThen, runAll_append]
    cases runAll events (enter context) with
    | error error => rfl
    | ok result =>
      obtain ⟨names, after⟩ := result
      simp [RunResult.andThen_ok, runAll, run, Except.map]
  constructor
  · intro context after names ho h
    rw [hrun context ho] at h
    cases hinner : runAll events (enter context) with
    | error error => simp [hinner, Except.map] at h
    | ok result =>
      obtain ⟨given, inside⟩ := result
      simp only [hinner, Except.map, Except.ok.injEq, Prod.mk.injEq] at h
      obtain ⟨rfl, rfl⟩ := h
      obtain ⟨x, hx, hvalue⟩ := hbody.ok (hopening context ho).2 hinner
      refine ⟨x, by rw [henclosed context ho, hx], fun naming first hagrees hpages => ?_⟩
      refine hvalue naming first ⟨fun hv => hagrees.var ?_, fun hp => hagrees.param ?_⟩ hpages
      · simpa using hv
      · simpa using hp
  · intro context error ho h
    rw [hrun context ho] at h
    cases hinner : runAll events (enter context) with
    | error e =>
      rw [henclosed context ho]
      rw [hinner] at h
      exact Except.error.inj h ▸ hbody.error (hopening context ho).2 hinner
    | ok result => simp [hinner, Except.map] at h

/-- A nested statement runs its events in a scope that is closed again. -/
theorem inNested {body : Render α} {events : List Event} {value : Naming → Nat → α}
    (hbody : Traced options body events value) :
    Traced options (Context.inNested body) (.openNested :: events ++ [.close]) value :=
  hbody.within (fun _ ho => ⟨rfl, ho⟩) fun _ _ => rfl

/-- A subquery runs its events in a scope that is closed again, under the name of its word. -/
theorem inChild {body : Render α} {events : List Event} {value : Naming → Nat → α}
    (hbody : Traced options body events value) (base : Option String) (imports : List Variable)
    {word : String} (hword : word = callBase options base imports) :
    Traced options (Context.inChild word imports body)
      (.openChild base imports :: events ++ [.close]) value := by
  refine hbody.within (fun context ho => ⟨rfl, ho⟩) fun context ho => ?_
  rw [hword, ← ho]
  rfl

end Traced

section Patterns

variable {options : RenderOptions}

/-- The properties of a node are rendered as they are printed. -/
theorem NodePattern.traced_properties (properties : List (String × Param)) :
    Traced options (NodePattern.renderProperties properties)
      (properties.map fun entry => .param entry.2)
      fun naming _ => (NodePattern.printProperties naming properties).map Fragment.text := by
  induction properties with
  | nil => exact Traced.pure []
  | cons entry rest ih =>
    exact (Traced.param entry.2).bind fun text =>
      ih.andReturn ((Identifier.escape entry.1 ++ ": " ++ text) :: ·)

/-- A variable that may be missing is rendered as it is printed. -/
theorem traced_optionalName (bound : Option Variable) :
    Traced options (optionalName bound) (bound.toList.map .name)
      fun naming _ => (optionalFragment naming bound).text := by
  cases bound with
  | none => exact Traced.pure ""
  | some v => exact Traced.name v

/-- The pattern of a node is rendered as it is printed. -/
theorem NodePattern.traced (node : NodePattern) :
    Traced options node.render node.events fun naming _ => (node.print naming).text := by
  refine Traced.congr ((traced_optionalName node.bound).bind fun name =>
    (NodePattern.traced_properties node.properties).andReturn fun properties =>
      "(" ++ name ++ String.join (node.labels.map fun label => ":" ++ Identifier.escape label)
        ++ (if properties.isEmpty then "" else " " ++ braces properties) ++ ")")
    fun naming first => ?_
  rw [NodePattern.text_print]

/-- The pattern of a relationship is rendered as it is printed. -/
theorem RelationshipPattern.traced (relationship : RelationshipPattern) :
    Traced options relationship.render relationship.events
      fun naming _ => (relationship.print naming).text := by
  unfold RelationshipPattern.render RelationshipPattern.print
  cases relationship.direction <;>
    exact ((traced_optionalName relationship.bound).andReturn _).congr fun naming first => by
      simp [String.append_assoc]

/-- The hops of a pattern are rendered as they are printed. -/
theorem Pattern.traced_hops (hops : List (RelationshipPattern × NodePattern)) :
    Traced options (Pattern.renderHops hops) (Pattern.hopEvents hops)
      fun naming _ => (Pattern.printHops naming hops).text := by
  induction hops with
  | nil => exact Traced.pure ""
  | cons hop rest ih =>
    obtain ⟨relationship, node⟩ := hop
    rw [Pattern.hopEvents, List.append_assoc]
    exact relationship.traced.bind fun relationshipText => node.traced.bind fun nodeText =>
      ih.andReturn (relationshipText ++ nodeText ++ ·)

/-- A pattern is rendered as it is printed. -/
theorem Pattern.traced (pattern : Pattern) :
    Traced options pattern.render pattern.events fun naming _ => (pattern.print naming).text := by
  have hhops (start : String) : Traced options (do
      let rest ← Pattern.renderHops pattern.hops
      return start ++ rest) (Pattern.hopEvents pattern.hops)
      fun naming _ => start ++ (Pattern.printHops naming pattern.hops).text :=
    (Pattern.traced_hops pattern.hops).andReturn (start ++ ·)
  exact pattern.start.traced.bind hhops

end Patterns

/-- The alias of an item is written after its text. -/
theorem Item.traced_withAlias {options : RenderOptions} (item : Item) (text : String) :
    Traced options (item.withAlias text) item.aliasEvents
      fun naming _ => text ++ (item.printAlias naming).text := by
  have hkept : Traced options (Pure.pure text) [] fun _ _ => text ++ "" :=
    (Traced.pure text).congr fun _ _ => (String.append_empty).symm
  have hnamed (newName : Variable) : Traced options
      (do return text ++ " AS " ++ (← variableName newName)) [.name newName]
      fun naming _ => text ++ (" AS " ++ naming.name (.var newName)) :=
    ((Traced.name newName).andReturn _).congr fun _ _ => String.append_assoc
  match item with
  | .plain _ => exact hkept
  | .named _ newName => exact (Traced.pure _).congr fun _ _ => String.append_assoc
  | .aliased e newName =>
    cases e with
    | var v =>
      simp only [Item.withAlias, Item.aliasEvents, Item.printAlias]
      by_cases hsame : v = newName
      · simp only [if_pos hsame]
        exact hkept
      · simp only [if_neg hsame]
        exact hnamed newName
    | _ => exact hnamed newName

section Trees

variable (options : RenderOptions)

mutual
/-- Rendering an expression runs its events and prints it. -/
theorem Expr.traced (e : Expr) :
    Traced options e.render e.events
      fun naming first => (e.print options.indentWidth naming first).text := by
  cases e with
  | var v => exact Traced.name v
  | property v path => exact (Traced.name v).andReturn _
  | param p => exact Traced.param p
  | literal value => exact Traced.pure (Literal.write value)
  | apply function arguments =>
    exact (Expr.traced_all arguments).andReturn fun texts =>
      function ++ "(" ++ Text.join ", " texts ++ ")"
  | list items =>
    exact (Expr.traced_all items).andReturn fun texts => "[" ++ Text.join ", " texts ++ "]"
  | map entries => exact (Expr.traced_entries entries).andReturn braces
  | project v entries =>
    have hentries (name : String) :=
      (MapEntry.traced_all entries).andReturn (name ++ " " ++ braces ·)
    exact (Traced.name v).bind hentries
  | comprehend pattern filter result =>
    have hresult (patternText : String) (condition : Option String) :
        Traced options (do
          let resultText ← result.render
          match condition with
          | some text =>
            return "[" ++ patternText ++ " WHERE " ++ text ++ " | " ++ resultText ++ "]"
          | none => return "[" ++ patternText ++ " | " ++ resultText ++ "]") result.events
          fun naming first =>
            match condition with
            | some text => "[" ++ patternText ++ " WHERE " ++ text ++ " | "
                ++ (result.print options.indentWidth naming first).text ++ "]"
            | none => "[" ++ patternText ++ " | "
                ++ (result.print options.indentWidth naming first).text ++ "]" := by
      cases condition <;> exact result.traced.andReturn _
    rw [Expr.events, List.append_assoc]
    refine (pattern.traced.bind fun patternText =>
      (Predicate.traced_optional filter).bind (hresult patternText)).congr fun naming first => ?_
    simp only [Expr.print, Pattern.pages_events, Nat.add_zero]
    cases Predicate.printOptional options.indentWidth naming first filter <;> rfl
termination_by structural e

/-- Expressions in a row are rendered as they are printed. -/
theorem Expr.traced_all (es : List Expr) :
    Traced options (Expr.renderAll es) (Expr.eventsAll es)
      fun naming first =>
        (Expr.printAll options.indentWidth naming first es).map Fragment.text := by
  cases es with
  | nil => exact Traced.pure []
  | cons e rest =>
    have hrest (text : String) := (Expr.traced_all rest).andReturn (text :: ·)
    exact e.traced.bind hrest
termination_by structural es

/-- The entries of a map are rendered as they are printed. -/
theorem Expr.traced_entries (es : List (String × Expr)) :
    Traced options (Expr.renderEntries es) (Expr.eventsEntries es) fun naming first =>
      (Expr.printEntries options.indentWidth naming first es).map Fragment.text := by
  match es with
  | [] => exact Traced.pure []
  | (key, e) :: rest =>
    have hrest (text : String) :=
      (Expr.traced_entries rest).andReturn ((Identifier.escape key ++ ": " ++ text) :: ·)
    exact e.traced.bind hrest
termination_by structural es

/-- The entries of a projection are rendered as they are printed. -/
theorem MapEntry.traced_all (es : List MapEntry) :
    Traced options (MapEntry.renderAll es) (MapEntry.eventsAll es) fun naming first =>
      (MapEntry.printAll options.indentWidth naming first es).map Fragment.text := by
  match es with
  | [] => exact Traced.pure []
  | .stored key :: rest =>
    exact (MapEntry.traced_all rest).andReturn (("." ++ Identifier.escape key) :: ·)
  | .computed key e :: rest =>
    have hrest (text : String) :=
      (MapEntry.traced_all rest).andReturn ((Identifier.escape key ++ ": " ++ text) :: ·)
    exact e.traced.bind hrest
termination_by structural es

/-- Rendering a predicate runs its events and prints it. -/
theorem Predicate.traced (p : Predicate) :
    Traced options p.render p.events
      fun naming first => (p.print options.indentWidth naming first).map Fragment.text := by
  cases p with
  | compare comparison left right =>
    rw [Predicate.render, Predicate.events]
    cases hunary : comparison.isUnary with
    | true =>
      refine (left.traced.bind fun text => Traced.pure _).congr fun naming first => ?_
      simp [Predicate.print, hunary, String.append_assoc]
    | false =>
      refine (left.traced.bind fun text => (Expr.traced_optional right).andReturn
        fun rightText => _).congr fun naming first => ?_
      simp [Predicate.print, hunary, String.append_assoc]
  | all parts =>
    refine ((Predicate.traced_all parts).andReturn (junction "AND")).congr fun naming first => ?_
    rw [Predicate.print, Fragment.map_text_junction]
  | any parts =>
    refine ((Predicate.traced_all parts).andReturn (junction "OR")).congr fun naming first => ?_
    rw [Predicate.print, Fragment.map_text_junction]
  | not part =>
    refine (part.traced.andReturn (Option.map (negated part))).congr fun naming first => ?_
    simp [Predicate.print, Function.comp_def]
  | exist body =>
    have hblock (text : String) : Traced options (do
        return some (block (← get) "EXISTS" text)) [] fun _ _ =>
          some ("EXISTS" ++ " \x7b\n" ++ Text.indent text options.indentWidth ++ "\n\x7d") :=
      Traced.bindGet fun context ho => ho ▸ Traced.pure _
    rw [Predicate.events, ← List.append_nil (_ ++ _)]
    exact body.traced.inNested.bind hblock
  | single v list filter =>
    refine ((Traced.name v).bind fun name => list.traced.bind fun listText =>
      (Predicate.traced_optional filter).andReturn fun condition =>
        some ("single(" ++ name ++ " IN " ++ listText ++ " WHERE " ++ condition.getD "true"
          ++ ")")).congr fun naming first => ?_
    simp only [Predicate.print, pages, Nat.add_zero]
    cases Predicate.printOptional options.indentWidth naming (first + pages list.events) filter <;>
      rfl
termination_by structural p

/-- An expression that may be absent is rendered as it is printed. -/
theorem Expr.traced_optional (e : Option Expr) :
    Traced options (Expr.renderOptional e) (Expr.eventsOptional e) fun naming first =>
      (Expr.printOptional options.indentWidth naming first e).text := by
  cases e with
  | none => exact Traced.pure ""
  | some e => exact e.traced.andReturn (" " ++ ·)
termination_by structural e

/-- A predicate that may be absent is rendered as it is printed. -/
theorem Predicate.traced_optional (p : Option Predicate) :
    Traced options (Predicate.renderOptional p) (Predicate.eventsOptional p) fun naming first =>
      (Predicate.printOptional options.indentWidth naming first p).map Fragment.text := by
  cases p with
  | none => exact Traced.pure none
  | some p => exact p.traced
termination_by structural p

/-- Predicates in a row are rendered as they are printed. -/
theorem Predicate.traced_all (ps : List Predicate) :
    Traced options (Predicate.renderAll ps) (Predicate.eventsAll ps) fun naming first =>
      (Predicate.printAll options.indentWidth naming first ps).map Fragment.text := by
  cases ps with
  | nil => exact Traced.pure []
  | cons p rest =>
    have hrest (text : Option String) := (Predicate.traced_all rest).andReturn (text.toList ++ ·)
    refine (p.traced.bind hrest).congr fun naming first => ?_
    simp [Predicate.printAll, Option.toList_map]
termination_by structural ps

/-- Items in a row are rendered as they are printed. -/
theorem Item.traced_all (clause : ReadingClause) (items : List Item) :
    Traced options (Item.renderAll clause items) (Item.eventsAll clause items)
      fun naming first =>
        (Item.printAll options.indentWidth naming clause first items).map Fragment.text := by
  cases items with
  | nil => exact Traced.pure []
  | cons item rest =>
    have hrest (text : String) := (Item.traced_all clause rest).andReturn (text :: ·)
    exact (item.traced clause).bind hrest
termination_by structural items

/-- Rendering an item checks what it reads, runs its events and prints it. -/
theorem Item.traced (clause : ReadingClause) (item : Item) :
    Traced options (item.render clause) (item.events clause)
      fun naming first => (item.print options.indentWidth naming first).text := by
  cases item with
  | plain e =>
    rw [Item.events, List.append_assoc]
    have hitem := e.traced.bind (Item.traced_withAlias (.plain e))
    refine ((Traced.requireAll clause e.reads).bind fun _ => hitem).congr fun naming first => ?_
    simp [Item.print]
  | aliased e newName =>
    rw [Item.events, List.append_assoc]
    have hitem := e.traced.bind (Item.traced_withAlias (.aliased e newName))
    refine ((Traced.requireAll clause e.reads).bind fun _ => hitem).congr fun naming first => ?_
    simp [Item.print]
  | named e newName =>
    rw [Item.events, List.append_assoc]
    have hitem := e.traced.bind (Item.traced_withAlias (.named e newName))
    refine ((Traced.requireAll clause e.reads).bind fun _ => hitem).congr fun naming first => ?_
    simp [Item.print]
termination_by structural item

/-- Sort keys are rendered as they are printed. -/
theorem Statement.traced_keys (keys : List (Expr × SortDirection)) :
    Traced options (Statement.renderKeys keys) (Statement.keyEvents keys) fun naming first =>
      (Statement.printKeys options.indentWidth naming first keys).map Fragment.text := by
  match keys with
  | [] => exact Traced.pure []
  | (e, direction) :: rest =>
    have hrest (text : String) :=
      (Statement.traced_keys rest).andReturn ((text ++ " " ++ direction.keyword) :: ·)
    exact e.traced.bind hrest
termination_by structural keys

/-- Rendering a statement runs its events and prints it. -/
theorem Statement.traced (s : Statement) :
    Traced options s.render s.events
      fun naming first => (s.print options.indentWidth naming first).text := by
  cases s with
  | matching optional pattern clauses =>
    rw [Statement.events, List.append_assoc]
    have hclauses (text : String) := (Statement.traced_all clauses).andReturn (stacked
      ((if optional then "OPTIONAL MATCH " else "MATCH ") ++ text))
    have hpattern := pattern.traced.bind hclauses
    refine ((Traced.declareAll pattern.bound).bind fun _ => hpattern).congr fun naming first => ?_
    simp [Statement.print, Fragment.stacked, stacked]
  | filtering parts =>
    refine ((Predicate.traced_all parts).andReturn fun texts =>
      ((junction "AND" texts).map ("WHERE " ++ ·)).getD "").congr fun naming first => ?_
    rw [Statement.text_print_filtering]
  | returning distinct items =>
    have hitems := Traced.projection .returning items (Item.traced_all .returning items)
    exact hitems.andReturn (withDistinct "RETURN" distinct ++ " " ++ ·)
  | calling body imports base clauses =>
    -- From the inside out: the clauses after the subquery, its body in a scope of its own, and what
    -- it imports.
    have hstacked (names : List String) (text : String) : Traced options (do
        let head := block (← get) "CALL" (importing names text)
        let texts ← Statement.renderAll clauses
        return stacked head texts) (Statement.eventsAll clauses) fun naming first =>
          stacked ("CALL" ++ " \x7b\n" ++ Text.indent (importing names text) options.indentWidth
            ++ "\n\x7d")
            ((Statement.printAll options.indentWidth naming first clauses).map Fragment.text) :=
      Traced.bindGet fun context ho => ho ▸ (Statement.traced_all clauses).andReturn _
    have hbody (names : List String) := Traced.bindGet fun context ho =>
      (body.traced.inChild base imports (by rw [← ho])).bind fun text =>
        (Traced.declareAll body.returned).bind fun _ => hstacked names text
    rw [Statement.events, List.append_assoc, List.append_assoc, List.append_assoc]
    refine ((Traced.requireAll .calling imports).bind fun _ => (Traced.variableNamesOf imports).bind
      hbody).congr fun naming first => ?_
    simp [Statement.print, Fragment.stacked, stacked, Fragment.block, pages, Function.comp_def]
  | passing distinct items clauses =>
    rw [Statement.events, List.append_assoc]
    have hitems := Traced.projection .passing items (Item.traced_all .passing items)
    have hclauses (text : String) := (Statement.traced_all clauses).andReturn
      (stacked (withDistinct "WITH" distinct ++ " " ++ text))
    have hretained (text : String) :=
      (Traced.retain (items.filterMap Item.introduced?)).bind fun _ => hclauses text
    refine (hitems.bind hretained).congr fun naming first => ?_
    simp [Statement.print, Fragment.stacked, stacked, pages_projectionEvents, pages]
  | passingAll distinct clauses => exact (Statement.traced_all clauses).andReturn _
  | ordering keys =>
    refine ((Statement.traced_keys keys).andReturn fun texts =>
      if texts.isEmpty then "" else "ORDER BY " ++ Text.join ", " texts).congr
        fun naming first => ?_
    rw [Statement.text_print_ordering]
  | skipping count => exact (Traced.page _).andReturn _
  | limiting count => exact (Traced.page _).andReturn _
termination_by structural s

/-- Clauses in a row are rendered as they are printed. -/
theorem Statement.traced_all (ss : List Statement) :
    Traced options (Statement.renderAll ss) (Statement.eventsAll ss) fun naming first =>
      (Statement.printAll options.indentWidth naming first ss).map Fragment.text := by
  cases ss with
  | nil => exact Traced.pure []
  | cons s rest =>
    have hrest (text : String) := (Statement.traced_all rest).andReturn fun texts =>
      if text.isEmpty then texts else text :: texts
    refine (s.traced.bind hrest).congr fun naming first => ?_
    simp only [Statement.printAll]
    split <;> simp_all
termination_by structural ss
end

end Trees

namespace Statement

variable {options : RenderOptions} {statement : Statement}

/-- A statement whose events fail cannot be built. -/
theorem build_error {error : BuildError}
    (h : runAll statement.events (.initial options) = .error error) :
    statement.build options = .error error := by
  have hresult : ((statement.render).result (.initial options)).1 = .error error :=
    (Statement.traced options statement).error rfl h
  show ((statement.render).result (.initial options)).1.map _ = _
  rw [hresult]
  rfl

/-- A statement whose events succeed is built: its text is the printed one, and its parameters
are those that the events bind. -/
theorem build_ok {names : List String} {after : Context}
    (h : runAll statement.events (.initial options) = .ok (names, after)) :
    ∃ text, statement.build options = .ok ⟨text, after.params⟩ ∧ ∀ naming : Naming,
      naming.Agrees after → naming.AgreesFrom 0 names →
        (statement.print options.indentWidth naming 0).text = text := by
  obtain ⟨text, hresult, htext⟩ := (Statement.traced options statement).ok rfl h
  refine ⟨text, ?_, fun naming => htext naming 0⟩
  show ((statement.render).result (.initial options)).1.map
    (fun text => (⟨text, ((statement.render).result (.initial options)).2.params⟩ : Query)) = _
  rw [hresult]
  rfl

/-- A statement that is built has events that succeed. -/
theorem runAll_of_build {query : Query} (h : statement.build options = .ok query) :
    ∃ names after, runAll statement.events (.initial options) = .ok (names, after) := by
  cases hrun : runAll statement.events (.initial options) with
  | error error => simp [build_error hrun] at h
  | ok result => exact ⟨result.1, result.2, rfl⟩

/-- A query that is built is printed with the names that the events have chosen. -/
theorem printed_of_build {query : Query} (h : statement.build options = .ok query) :
    ∃ names after, runAll statement.events (.initial options) = .ok (names, after) ∧
      query.text = (statement.print options.indentWidth (after.naming names) 0).text ∧
      query.params = after.params := by
  obtain ⟨names, after, hrun⟩ := runAll_of_build h
  obtain ⟨text, hbuild, htext⟩ := build_ok hrun
  obtain rfl : query = ⟨text, after.params⟩ := Except.ok.inj (h.symm.trans hbuild)
  have hprinted := htext _ (after.naming_agrees names) (after.naming_agreesFrom names)
  exact ⟨names, after, hrun, hprinted.symm, rfl⟩

end Statement

/-- A predicate that is built to a query has events that succeed and bind the parameters. -/
theorem Predicate.runAll_of_build {options : RenderOptions} {predicate : Predicate} {query : Query}
    (h : predicate.build options = .ok (some query)) :
    ∃ names after, runAll predicate.events (.initial options) = .ok (names, after) ∧
      query.params = after.params := by
  have hresult : ((predicate.render).result (.initial options)).1.map (fun text => text.map
      fun text => (⟨text, ((predicate.render).result (.initial options)).2.params⟩ : Query)) =
      .ok (some query) := h
  cases hrun : runAll predicate.events (.initial options) with
  | error error =>
    rw [(Predicate.traced options predicate).error rfl hrun] at hresult
    simp [Except.map] at hresult
  | ok result =>
    obtain ⟨names, after⟩ := result
    obtain ⟨text, htext, -⟩ := (Predicate.traced options predicate).ok rfl hrun
    rw [htext] at hresult
    obtain ⟨text, -, rfl⟩ := Option.map_eq_some_iff.mp (Except.ok.inj hresult)
    exact ⟨names, after, rfl, rfl⟩

end GraphRead
