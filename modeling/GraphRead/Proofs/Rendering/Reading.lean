import GraphRead.Proofs.Rendering.Formulas

/-!
# Predicates are read back

Rendering a predicate gives a text with the Boolean structure of the predicate, in
every context whose names are ordinary. The structure is outlined by rendering the
atoms one after another, as the renderer does, and putting formulas together
instead of texts. Fixed names have to be no keywords of junctions and negations;
names that are chosen never are, since they end in a digit.
-/

namespace GraphRead

open Event Context
open Identifier (isPlain isOrdinary)

/-! ### Outlines -/

mutual
/-- The formula of a predicate whose atoms are rendered, if there is something to say. -/
def Predicate.outline : Predicate → Render (Option Formula)
  | .all parts => do
    let formulas ← Predicate.outlineAll parts
    return Formula.junction .all formulas
  | .any parts => do
    let formulas ← Predicate.outlineAll parts
    return Formula.junction .any formulas
  | .not part => do
    let formula ← part.outline
    return formula.map .not
  | .compare comparison left right => do
    let text ← (Predicate.compare comparison left right).render
    return text.map .atom
  | .exist body => do
    let text ← (Predicate.exist body).render
    return text.map .atom
  | .single v list filter => do
    let text ← (Predicate.single v list filter).render
    return text.map .atom
termination_by structural p => p

/-- The formulas of the predicates that have something to say. -/
def Predicate.outlineAll : List Predicate → Render (List Formula)
  | [] => return []
  | p :: rest => do
    let formula ← p.outline
    let formulas ← Predicate.outlineAll rest
    return formula.toList ++ formulas
termination_by structural ps => ps
end

section Outlines

variable (options : RenderOptions)

/-- Rendering an atom runs its events, and its formula is the printed atom. -/
theorem Predicate.traced_atom (p : Predicate) :
    Traced options (do
      let text ← p.render
      return text.map Formula.atom) p.events
      fun naming first => (p.print options.indentWidth naming first).map (.atom ·.text) := by
  have htraced := (Predicate.traced options p).andReturn (Option.map Formula.atom)
  refine htraced.congr fun naming first => ?_
  simp [Function.comp_def]

mutual
/-- Outlining a predicate runs its events and gives its formula. -/
theorem Predicate.traced_outline (p : Predicate) :
    Traced options p.outline p.events
      fun naming first => p.form options.indentWidth naming first := by
  cases p with
  | all parts => exact (Predicate.traced_outlineAll parts).andReturn (Formula.junction .all)
  | any parts => exact (Predicate.traced_outlineAll parts).andReturn (Formula.junction .any)
  | not part => exact part.traced_outline.andReturn (Option.map Formula.not)
  | compare comparison left right =>
    exact Predicate.traced_atom options (.compare comparison left right)
  | exist body => exact Predicate.traced_atom options (.exist body)
  | single v list filter => exact Predicate.traced_atom options (.single v list filter)
termination_by structural p

/-- Outlining predicates in a row runs their events and gives their formulas. -/
theorem Predicate.traced_outlineAll (ps : List Predicate) :
    Traced options (Predicate.outlineAll ps) (Predicate.eventsAll ps)
      fun naming first => Predicate.formAll options.indentWidth naming first ps := by
  cases ps with
  | nil => exact Traced.pure []
  | cons p rest =>
    have hrest (formula : Option Formula) :=
      (Predicate.traced_outlineAll rest).andReturn (formula.toList ++ ·)
    exact p.traced_outline.bind hrest
termination_by structural ps
end

end Outlines

/-! ### Conditions -/

/-- The fixed name that an event asks for is plain. -/
def Event.NamePlain : Event → Prop
  | .name v => v.Plain
  | _ => True

/-- The fixed name that an event asks for is none of the words. -/
def Event.Avoids (words : List String) : Event → Prop
  | .name v => ∀ name ∈ v.name, name ∉ words
  | _ => True

/-- The fixed names and the functions in a predicate are plain, and there are no maps in its
literals. -/
structure Predicate.Plain (p : Predicate) : Prop where
  names : ∀ event ∈ p.events, event.NamePlain
  parts : ∀ part ∈ p.parts, part.Legible

/-- The bases of the names in subqueries are plain as well, and no fixed name is a keyword of
junctions and negations. -/
structure Predicate.Legible (p : Predicate) : Prop extends p.Plain where
  events : ∀ event ∈ p.events, event.Plain
  avoids : ∀ event ∈ p.events, event.Avoids Formula.keywords

/-- A comparison has the operands that it is written with. -/
def Part.Complete : Part → Prop
  | .predicate (.compare comparison _ right) => comparison.isUnary = true ∨ right.isSome = true
  | _ => True

/-- All comparisons in a predicate have their operands. -/
def Predicate.Complete (p : Predicate) : Prop := ∀ part ∈ p.parts, part.Complete

section Decisions

instance (v : Variable) : Decidable v.Plain :=
  inferInstanceAs (Decidable (∀ name ∈ v.name, isPlain name = true))

instance : DecidablePred Event.Plain
  | .name v => inferInstanceAs (Decidable v.Plain)
  | .openChild base imports => inferInstanceAs
      (Decidable ((∀ name ∈ base, isPlain name = true) ∧ ∀ v ∈ imports, v.Plain))
  | .require _ _ | .reject _ | .param _ | .page _ | .declare _ | .retain _ | .openNested
  | .close => isTrue trivial

instance : DecidablePred Event.NamePlain
  | .name v => inferInstanceAs (Decidable v.Plain)
  | .require _ _ | .reject _ | .param _ | .page _ | .declare _ | .retain _ | .openChild _ _
  | .openNested | .close => isTrue trivial

instance (words : List String) : DecidablePred (Event.Avoids words)
  | .name v => inferInstanceAs (Decidable (∀ name ∈ v.name, name ∉ words))
  | .require _ _ | .reject _ | .param _ | .page _ | .declare _ | .retain _ | .openChild _ _
  | .openNested | .close => isTrue trivial

instance : DecidablePred Part.Legible
  | .expr (.apply function _) => inferInstanceAs (Decidable (isPlain function = true))
  | .expr (.literal value) => inferInstanceAs (Decidable (value.holdsObject = false))
  | .expr (.var _) | .expr (.property _ _) | .expr (.param _) | .expr (.list _) | .expr (.map _)
  | .expr (.project _ _) | .expr (.comprehend _ _ _) | .predicate _ => isTrue trivial

instance : DecidablePred Part.Complete
  | .predicate (.compare comparison _ right) =>
    inferInstanceAs (Decidable (comparison.isUnary = true ∨ right.isSome = true))
  | .predicate (.all _) | .predicate (.any _) | .predicate (.not _) | .predicate (.exist _)
  | .predicate (.single _ _ _) | .expr _ => isTrue trivial

instance (p : Predicate) : Decidable p.Complete :=
  inferInstanceAs (Decidable (∀ part ∈ p.parts, part.Complete))

instance (p : Predicate) : Decidable p.Plain :=
  decidable_of_iff ((∀ event ∈ p.events, event.NamePlain) ∧ ∀ part ∈ p.parts, part.Legible)
    ⟨fun h => ⟨h.1, h.2⟩, fun h => ⟨h.names, h.parts⟩⟩

instance (p : Predicate) : Decidable p.Legible :=
  decidable_of_iff (p.Plain ∧ (∀ event ∈ p.events, event.Plain) ∧
      ∀ event ∈ p.events, event.Avoids Formula.keywords)
    ⟨fun h => ⟨h.1, h.2.1, h.2.2⟩, fun h => ⟨h.toPlain, h.events, h.avoids⟩⟩

end Decisions

/-! ### Names -/

/-- A plain name that ends in a digit is no keyword. -/
theorem Identifier.isOrdinary_of_endsInDigit {name : String} (hplain : isPlain name = true)
    (hdigit : Settings.endsInDigit name = true) : isOrdinary name = true := by
  have hkeyword : ∀ keyword ∈ Formula.keywords, Settings.endsInDigit keyword = false := by decide
  have hne : name ∉ Formula.keywords := fun hmem => by simp [hkeyword name hmem] at hdigit
  simp [isOrdinary, hplain, hne]

namespace Context

/-- The names given so far are ordinary, and so are those that will be. -/
structure Ordinary (context : Context) : Prop where
  plain : context.Plain
  var : ∀ {v name}, context.variableNames.lookup v = some name → isOrdinary name = true
  param : ∀ {p name}, context.paramNames.lookup p = some name → isOrdinary name = true

namespace Ordinary

variable {context after : Context}

/-- No names have been given at first. -/
theorem initial {options : RenderOptions} (h : options.Plain) :
    (Context.initial options).Ordinary where
  plain := .initial h
  var := by simp [Context.initial]
  param := by simp [Context.initial]

/-- A name that is allocated is no keyword. -/
theorem isOrdinary_allocate (h : context.Plain) {base : String} (hbase : isPlain base = true) :
    isOrdinary ((Context.allocate base).run context).1 = true :=
  Identifier.isOrdinary_of_endsInDigit (h.isPlain_allocate hbase) (Names.endsInDigit_numbered _ _)

/-- The name of a value is no keyword. -/
theorem isOrdinary_bindValue (h : context.Plain) (value : Json) :
    isOrdinary ((Context.bindValue value).run context).1 = true := by
  rw [run_bindValue]
  exact isOrdinary_allocate h h.options.ofParam

/-- A context with the same tables of names. -/
theorem of_tables (h : context.Ordinary) (hplain : after.Plain)
    (hvar : after.variableNames = context.variableNames)
    (hparam : after.paramNames = context.paramNames) : after.Ordinary where
  plain := hplain
  var hlookup := h.var (by rwa [hvar] at hlookup)
  param hlookup := h.param (by rwa [hparam] at hlookup)

/-- Naming a variable keeps names ordinary. -/
theorem variableName (h : context.Ordinary) {v : Variable} (hv : v.Plain) :
    ((Context.variableName v).run context).2.Ordinary := by
  have hplain := h.plain.variableName hv
  cases hname : v.name with
  | some name =>
    rw [run_variableName_fixed hname]
    exact h
  | none =>
    cases hlookup : context.variableNames.lookup v with
    | some name =>
      rw [run_variableName_some hname hlookup]
      exact h
    | none =>
      rw [run_variableName_none hname hlookup] at hplain ⊢
      refine ⟨hplain, fun {w name} hw => ?_, h.param⟩
      rw [List.lookup_cons] at hw
      split at hw
      · cases hw
        exact isOrdinary_allocate h.plain (isPlain_baseFor h.plain.options hv)
      · exact h.var hw

/-- Naming a parameter keeps names ordinary. -/
theorem paramName (h : context.Ordinary) (p : Param) :
    ((Context.paramName p).run context).2.Ordinary := by
  have hplain := h.plain.paramName p
  cases hlookup : context.paramNames.lookup p with
  | some name =>
    rw [run_paramName_some hlookup]
    exact h
  | none =>
    rw [run_paramName_none hlookup] at hplain ⊢
    refine ⟨hplain, h.var, fun {q name} hq => ?_⟩
    rw [List.lookup_cons] at hq
    split at hq
    · cases hq
      exact isOrdinary_bindValue h.plain p.value
    · exact h.param hq

/-- An event that fixes only plain names gives only ordinary ones. -/
theorem run {event : Event} (hevent : event.Plain) {names : List String}
    (hrun : event.run context = .ok (names, after)) (h : context.Ordinary) :
    after.Ordinary ∧ ∀ name ∈ names, isOrdinary name = true := by
  have hplain := h.plain.run hevent hrun
  cases Event.steps_of_run hrun with
  | name v => exact ⟨h.variableName hevent, by simp⟩
  | param p => exact ⟨h.paramName p, by simp⟩
  | page count =>
    refine ⟨h.of_tables hplain ?_ ?_, List.forall_mem_singleton.mpr ?_⟩
    · rw [run_bindValue, run_allocate]
    · rw [run_bindValue, run_allocate]
    · exact isOrdinary_bindValue h.plain _
  | require clause hdeclared => exact ⟨h, by simp⟩
  | close =>
    exact ⟨h.of_tables hplain (leave_variableNames context) (leave_paramNames context), by simp⟩
  | declare _ | retain _ | openChild _ _ | openNested =>
    exact ⟨h.of_tables hplain rfl rfl, by simp⟩

/-- A whole run keeps names ordinary, and those of its pages are. -/
theorem runAll {events : List Event} (hevents : ∀ event ∈ events, event.Plain)
    {names : List String} (hrun : Event.runAll events context = .ok (names, after))
    (h : context.Ordinary) : after.Ordinary ∧ ∀ name ∈ names, isOrdinary name = true := by
  induction events generalizing context names with
  | nil =>
    simp only [Event.runAll, Except.ok.injEq, Prod.mk.injEq] at hrun
    obtain ⟨rfl, rfl⟩ := hrun
    exact ⟨h, by simp⟩
  | cons event rest ih =>
    obtain ⟨first, others, middle, hfirst, hrest, rfl⟩ := RunResult.andThen_eq_ok hrun
    obtain ⟨hevent, hothers⟩ := List.forall_mem_cons.mp hevents
    obtain ⟨hmiddle, hnames⟩ := h.run hevent hfirst
    obtain ⟨hafter, hmore⟩ := ih hothers hrest hmiddle
    exact ⟨hafter, List.forall_mem_append.mpr ⟨hnames, hmore⟩⟩

end Ordinary

end Context

/-! ### Reading back -/

namespace Context

/-- The naming that a run leaves behind, with an ordinary name for everything else. -/
def fullNaming (context : Context) (pageNames : List String) : Naming where
  var v := (context.variableNames.lookup v).getD "this0"
  param p := (context.paramNames.lookup p).getD "this0"
  page number := pageNames[number]?.getD "this0"

variable {context : Context} {pageNames : List String}

/-- The naming has the names that the context remembers. -/
theorem fullNaming_agrees (context : Context) (pageNames : List String) :
    (context.fullNaming pageNames).Agrees context where
  var h := by simp [fullNaming, h]
  param h := by simp [fullNaming, h]

/-- The naming has the names of the pages. -/
theorem fullNaming_agreesFrom (context : Context) (pageNames : List String) :
    (context.fullNaming pageNames).AgreesFrom 0 pageNames := by
  intro i name hi
  simp [fullNaming, hi]

/-- After the events of a legible predicate, all names in it are ordinary. -/
theorem Ordinary.isOrdinary_name (h : context.Ordinary)
    (hpages : ∀ name ∈ pageNames, isOrdinary name = true) {p : Predicate} (hp : p.Legible)
    {first : Nat} : ∀ handle ∈ handles first p.events,
      isOrdinary ((context.fullNaming pageNames).name handle) = true := by
  -- What has not been named is called `this0` in the naming.
  have hdefault : isOrdinary "this0" = true := by decide
  intro handle hhandle
  cases handle with
  | var v =>
    cases hname : v.name with
    | some name =>
      have hmem := name_mem_of_mem_handles hhandle
      have hplain : isPlain name = true := hp.names _ hmem name hname
      have hkeyword : name ∉ Formula.keywords := hp.avoids _ hmem name hname
      simp [Naming.name, hname, isOrdinary, hplain, hkeyword]
    | none =>
      cases hlookup : context.variableNames.lookup v with
      | none => simpa [Naming.name, hname, fullNaming, hlookup] using hdefault
      | some name => simpa [Naming.name, hname, fullNaming, hlookup] using h.var hlookup
  | param q =>
    cases hlookup : context.paramNames.lookup q with
    | none => simpa [Naming.name, fullNaming, hlookup] using hdefault
    | some name => simpa [Naming.name, fullNaming, hlookup] using h.param hlookup
  | page number count =>
    cases hlookup : pageNames[number]? with
    | none => simpa [Naming.name, fullNaming, hlookup] using hdefault
    | some name =>
      simpa [Naming.name, fullNaming, hlookup] using hpages name (List.mem_of_getElem? hlookup)

end Context

namespace Predicate

variable {p : Predicate} {context after : Context} {text : String}

/-- What is rendered in an ordinary context is read as what is outlined there. -/
theorem reads_of_render (hp : p.Legible) (hcontext : context.Ordinary)
    (h : p.render.result context = (.ok (some text), after)) :
    ∃ formula, p.outline.result context = (.ok (some formula), after) ∧ formula.Reads text := by
  cases hrun : runAll p.events context with
  | error error =>
    have herror := (Predicate.traced context.options p).error rfl hrun
    simp [h] at herror
  | ok result =>
    obtain ⟨pageNames, last⟩ := result
    -- Text and formula are those printed under one naming, which has the names of the last context.
    obtain ⟨printed, hresult, hprinted⟩ := (Predicate.traced context.options p).ok rfl hrun
    obtain ⟨outlined, houtline, hform⟩ := (Predicate.traced_outline context.options p).ok rfl hrun
    obtain ⟨rfl, rfl⟩ : printed = some text ∧ last = after := by
      rw [h] at hresult
      simpa [eq_comm] using hresult
    obtain ⟨hlast, hpages⟩ := hcontext.runAll hp.events hrun
    have hagrees := last.fullNaming_agrees pageNames
    have hfrom := last.fullNaming_agreesFrom pageNames
    have htext := hprinted _ 0 hagrees hfrom
    have hsame := hform _ 0 hagrees hfrom
    have hrel := p.reads_print context.options.indentWidth (last.fullNaming pageNames) 0 hp.parts
    obtain ⟨fragment, hfragment, rfl⟩ := Option.map_eq_some_iff.mp htext
    have hnames : fragment.Named (last.fullNaming pageNames) := by
      have hhandles := p.handles_print context.options.indentWidth (last.fullNaming pageNames) 0
      rw [hfragment] at hhandles
      have hsame : fragment.handles = handles 0 p.events := hhandles
      exact fun handle hhandle => hlast.isOrdinary_name hpages hp handle (hsame ▸ hhandle)
    rw [hfragment, hsame] at hrel
    cases hrel with
    | some hreads => exact ⟨_, houtline, hreads hnames⟩

/-- A negation is rendered as one pair of parentheses after the keyword. -/
theorem enclosed_of_render_not (hp : p.Legible) (hcontext : context.Ordinary)
    (h : p.not.render.result context = (.ok (some text), after)) :
    ∃ inner, text = "NOT (" ++ inner ++ ")" ∧ Text.Spans inner [] [] := by
  rw [Predicate.render] at h
  rcases hoperand : p.render.result context with ⟨outcome, middle⟩
  cases outcome with
  | error error =>
    have herror := Render.result_bind_error (congrArg Prod.fst hoperand)
      fun text => pure (text.map (negated p))
    rw [h] at herror
    cases herror
  | ok operand =>
    rw [Render.result_bind_ok hoperand, Render.result_pure, Prod.mk.injEq, Except.ok.injEq] at h
    obtain ⟨hmap, -⟩ := h
    obtain ⟨operand, rfl, rfl⟩ := Option.map_eq_some_iff.mp hmap
    obtain ⟨formula, -, hreads⟩ := reads_of_render hp hcontext hoperand
    exact enclosed_negated p hreads

/-- A predicate that is built has been rendered. -/
theorem render_of_build {options : RenderOptions} {query : Query}
    (h : p.build options = .ok (some query)) :
    ∃ text after, p.render.result (.initial options) = (.ok (some text), after) ∧
      query = ⟨text, after.params⟩ := by
  have hresult : (p.render.result (.initial options)).1.map (fun text => text.map
      fun text => (⟨text, (p.render.result (.initial options)).2.params⟩ : Query)) =
      .ok (some query) := h
  rcases hrender : p.render.result (.initial options) with ⟨outcome, after⟩
  rw [hrender] at hresult
  cases outcome with
  | error error => simp [Except.map] at hresult
  | ok printed =>
    obtain ⟨text, rfl, rfl⟩ := Option.map_eq_some_iff.mp (Except.ok.inj hresult)
    exact ⟨text, after, rfl, rfl⟩

/-- A predicate that is legible keeps its Boolean structure in the text of its query, and wherever
its negation is rendered, one pair of parentheses encloses it. -/
theorem keeps_structure (hp : p.Legible) :
    (∀ {options : RenderOptions} {query : Query}, options.Plain →
      p.build options = .ok (some query) → ∃ formula,
        (p.outline.result (.initial options)).1 = .ok (some formula) ∧
          Formula.read query.text = some formula) ∧
    ∀ {context after : Context} {text : String}, context.Ordinary →
      p.not.render.result context = (.ok (some text), after) →
        ∃ inner, text = "NOT (" ++ inner ++ ")" ∧ Text.Spans inner [] [] := by
  refine ⟨fun {options query} hoptions h => ?_, enclosed_of_render_not hp⟩
  obtain ⟨text, after, hrender, rfl⟩ := render_of_build h
  obtain ⟨formula, houtline, hreads⟩ := reads_of_render hp (.initial hoptions) hrender
  exact ⟨formula, by rw [houtline], hreads.read⟩

section Examples

/-- A variable with a fixed name. -/
def fixedAs (identity : Nat) (name : String) : Variable := ⟨identity, .value, some name, []⟩

/-- The prefixes are plain by default. -/
theorem plain_defaults : RenderOptions.Plain {} := ⟨by decide, by decide, by decide⟩

/-- No title, neither the given one nor another, and a year that is not listed. The junction around
the alternatives has one branch left. -/
def untitled : Predicate :=
  .all [.not (.all [.any [
      .compare .equal (.property (fixedAs 0 "x") ["title"]) (some (.literal (.string "a) OR b"))),
      .compare .isNotNull (.property (fixedAs 0 "x") ["title"]) none], .any []]),
    .not (.compare .within (.property (fixedAs 0 "x") ["year"]) (some (.param ⟨0, .array []⟩)))]

/-- The query of the predicate. A literal in it looks like a junction. -/
def untitledQuery : Query :=
  ⟨"(NOT (x.title = 'a) OR b' OR x.title IS NOT NULL) AND NOT (x.year IN $param0))",
    [("param0", .array [])]⟩

/-- The text of the predicate is read with its structure, and a negation applies to the whole of
it. -/
theorem untitled_keeps_structure : untitled.build {} = .ok (some untitledQuery) ∧
    Formula.read untitledQuery.text =
      some (.all [.not (.any [.atom "x.title = 'a) OR b'", .atom "x.title IS NOT NULL"]),
        .not (.atom "x.year IN $param0")]) ∧
    ∃ inner, "NOT " ++ untitledQuery.text = "NOT (" ++ inner ++ ")" ∧ Text.Spans inner [] [] := by
  have hbuild : untitled.build {} = .ok (some untitledQuery) := rfl
  have hkeeps := keeps_structure (show untitled.Legible by decide)
  obtain ⟨formula, houtline, hread⟩ := hkeeps.1 plain_defaults hbuild
  rw [← Option.some.inj (Except.ok.inj houtline)] at hread
  exact ⟨hbuild, hread, hkeeps.2 (.initial plain_defaults) rfl⟩

/-! Without the conditions on names, no reader can tell the structure of a text. -/

/-- A reader finds the structure of every predicate of a kind in the text of its query, if the
options are allowed. -/
def ReadBackBy (reader : String → Option Formula) (kind : Predicate → Prop)
    (allowed : RenderOptions → Prop) : Prop :=
  ∀ {p : Predicate} {options : RenderOptions} {query : Query}, kind p → allowed options →
    p.build options = .ok (some query) → ∃ formula,
      (p.outline.result (.initial options)).1 = .ok (some formula) ∧
        reader query.text = some formula

section Lost

variable {kind : Predicate → Prop} {allowed : RenderOptions → Prop} {q : Predicate}
  {options : RenderOptions} {query : Query} {formula other : Formula}

/-- Two predicates that have different structures and the same query. -/
theorem not_readBackBy (hoptions : allowed options) (hp : kind p) (hq : kind q)
    (hbuild : p.build options = .ok (some query)) (hbuild' : q.build options = .ok (some query))
    (houtline : (p.outline.result (.initial options)).1 = .ok (some formula))
    (houtline' : (q.outline.result (.initial options)).1 = .ok (some other))
    (hne : formula ≠ other) (reader : String → Option Formula) :
    ¬ ReadBackBy reader kind allowed := by
  intro hreader
  obtain ⟨first, hfirst, hread⟩ := hreader hp hoptions hbuild
  obtain ⟨second, hsecond, hread'⟩ := hreader hq hoptions hbuild'
  obtain rfl : formula = first := by simpa using houtline.symm.trans hfirst
  obtain rfl : other = second := by simpa using houtline'.symm.trans hsecond
  exact hne (Option.some.inj (hread.symm.trans hread'))

/-- One predicate whose query is read as something else refutes the reader. -/
theorem not_readBackBy_of_misread {reader : String → Option Formula} (hoptions : allowed options)
    (hp : kind p) (hbuild : p.build options = .ok (some query))
    (houtline : (p.outline.result (.initial options)).1 = .ok (some formula))
    (hread : reader query.text ≠ some formula) : ¬ ReadBackBy reader kind allowed := by
  intro hreader
  obtain ⟨found, hfound, hback⟩ := hreader hp hoptions hbuild
  obtain rfl : formula = found := by simpa using houtline.symm.trans hfound
  exact hread hback

end Lost

/-- Both of two comparisons, with variables that are named like keywords. -/
def bothListed : Predicate :=
  .all [.compare .within (.var (fixedAs 0 "x")) (some (.var (fixedAs 1 "OR"))),
    .compare .within (.var (fixedAs 2 "IN")) none]

/-- One of two comparisons, with variables that are named like keywords. -/
def eitherListed : Predicate :=
  .any [.compare .within (.var (fixedAs 0 "x")) none,
    .compare .within (.var (fixedAs 3 "AND")) (some (.var (fixedAs 2 "IN")))]

/-- A match in a subquery with the given base of names. -/
def matchBelow (v : Variable) (base : Option String) : Predicate :=
  .exist (.calling (.matching false ⟨⟨some v, [], []⟩, []⟩ []) [] base [])

/-- Two alternatives, of which the first contains the text of two in the base of its names. -/
def twoMatches : Predicate :=
  .any [matchBelow ⟨0, .node, none, []⟩
      (some "a)\n\x7d\n\x7d OR EXISTS \x7b\nCALL \x7b\nMATCH (b"),
    .isNull (.var (fixedAs 1 "c"))]

/-- Three alternatives. -/
def threeMatches : Predicate :=
  .any [matchBelow (fixedAs 2 "a") none, matchBelow ⟨0, .node, none, []⟩ (some "b"),
    .isNull (.var (fixedAs 1 "c"))]

/-- Options without indentation. -/
def flush : RenderOptions := { indentWidth := 0 }

/-- The query of the two alternatives as well as of the three. -/
def matchesQuery : Query :=
  ⟨"(EXISTS \x7b\nCALL \x7b\nMATCH (a)\n\x7d\n\x7d OR EXISTS \x7b\nCALL \x7b\nMATCH (b0_this0)"
    ++ "\n\x7d\n\x7d OR c IS NULL)", []⟩

/-- A comparison of a variable with the given name. -/
def listed (name : String) : Predicate :=
  .compare .within (.var (fixedAs 0 name)) (some (.var (fixedAs 1 "x")))

/-- Options in which generated names of values begin with the text of a condition. -/
def loose : RenderOptions := { valuePrefix := "a IS NULL OR b" }

/-- Two alternatives, of which the first is about a variable without a fixed name. -/
def twoAbsent : Predicate :=
  .any [.isNull (.var ⟨0, .value, none, []⟩), .isNull (.var (fixedAs 1 "c"))]

/-- Three alternatives about variables with fixed names. -/
def threeAbsent : Predicate :=
  .any [.isNull (.var (fixedAs 2 "a")), .isNull (.var (fixedAs 3 "b0")),
    .isNull (.var (fixedAs 1 "c"))]

/-- A fixed name that joins conditions makes two structures share a text. -/
theorem junction_names_ambiguous (reader : String → Option Formula) :
    ¬ ReadBackBy reader (fun p => p.Plain ∧ ∀ event ∈ p.events, event.Plain) (·.Plain) := by
  have hboth : bothListed.build {} = .ok (some ⟨"(x IN OR AND IN IN)", []⟩) := rfl
  have heither : eitherListed.build {} = .ok (some ⟨"(x IN OR AND IN IN)", []⟩) := rfl
  have hall : (bothListed.outline.result (.initial {})).1 =
      .ok (some (.all [.atom "x IN OR", .atom "IN IN"])) := rfl
  have hany : (eitherListed.outline.result (.initial {})).1 =
      .ok (some (.any [.atom "x IN", .atom "AND IN IN"])) := rfl
  exact not_readBackBy plain_defaults (by decide) (by decide) hboth heither hall hany (by simp)
    reader

/-- The base of the names in a subquery makes two structures share a text. -/
theorem call_bases_ambiguous (reader : String → Option Formula) :
    ¬ ReadBackBy reader (fun p => p.Plain ∧ ∀ event ∈ p.events, event.Avoids Formula.keywords)
      (·.Plain) := by
  have hoptions : flush.Plain := ⟨by decide, by decide, by decide⟩
  have htwo : twoMatches.build flush = .ok (some matchesQuery) := by decide +kernel
  have hthree : threeMatches.build flush = .ok (some matchesQuery) := by decide +kernel
  have hpair : ∃ first second, (twoMatches.outline.result (.initial flush)).1 =
      .ok (some (.any [first, second])) := ⟨_, _, rfl⟩
  have htriple : ∃ first second third, (threeMatches.outline.result (.initial flush)).1 =
      .ok (some (.any [first, second, third])) := ⟨_, _, _, rfl⟩
  obtain ⟨first, second, htwoOutline⟩ := hpair
  obtain ⟨first', second', third', hthreeOutline⟩ := htriple
  exact not_readBackBy hoptions (by decide) (by decide) htwo hthree htwoOutline hthreeOutline
    (by simp) reader

/-- The start of generated names makes two structures share a text. -/
theorem name_starts_ambiguous (reader : String → Option Formula) :
    ¬ ReadBackBy reader (fun p => p.Legible ∧ p.Complete) fun _ => True := by
  have htwo : twoAbsent.build loose =
      .ok (some ⟨"(a IS NULL OR b0 IS NULL OR c IS NULL)", []⟩) := rfl
  have hthree : threeAbsent.build loose =
      .ok (some ⟨"(a IS NULL OR b0 IS NULL OR c IS NULL)", []⟩) := rfl
  have hpair : (twoAbsent.outline.result (.initial loose)).1 =
      .ok (some (.any [.atom "a IS NULL OR b0 IS NULL", .atom "c IS NULL"])) := rfl
  have htriple : (threeAbsent.outline.result (.initial loose)).1 =
      .ok (some (.any [.atom "a IS NULL", .atom "b0 IS NULL", .atom "c IS NULL"])) := rfl
  exact not_readBackBy trivial (by decide) (by decide) htwo hthree hpair htriple (by simp) reader

/-- Each keyword as a fixed name is taken for what it joins or negates, also where all comparisons
have their operands and the other keywords are no names. -/
theorem keyword_names_misread {keyword : String} (h : keyword ∈ Formula.keywords) :
    ¬ ReadBackBy Formula.read (fun p => p.Plain ∧ p.Complete ∧ (∀ event ∈ p.events, event.Plain) ∧
      ∀ event ∈ p.events, event.Avoids (Formula.keywords.erase keyword)) (·.Plain) := by
  simp only [Formula.keywords, List.mem_cons, List.not_mem_nil, or_false] at h
  rcases h with rfl | rfl | rfl
  · have hbuild : (listed "AND").build {} = .ok (some ⟨"AND IN x", []⟩) := rfl
    have houtline : ((listed "AND").outline.result (.initial {})).1 =
        .ok (some (.atom "AND IN x")) := rfl
    have hread : Formula.read "AND IN x" = none := rfl
    exact not_readBackBy_of_misread plain_defaults (by decide) hbuild houtline (by simp [hread])
  · have hbuild : (listed "OR").build {} = .ok (some ⟨"OR IN x", []⟩) := rfl
    have houtline : ((listed "OR").outline.result (.initial {})).1 =
        .ok (some (.atom "OR IN x")) := rfl
    have hread : Formula.read "OR IN x" = none := rfl
    exact not_readBackBy_of_misread plain_defaults (by decide) hbuild houtline (by simp [hread])
  · have hbuild : (listed "NOT").build {} = .ok (some ⟨"NOT IN x", []⟩) := rfl
    have houtline : ((listed "NOT").outline.result (.initial {})).1 =
        .ok (some (.atom "NOT IN x")) := rfl
    have hread : Formula.read "NOT IN x" = some (.not (.atom "IN x")) := rfl
    exact not_readBackBy_of_misread plain_defaults (by decide) hbuild houtline (by simp [hread])

/-- A text does not determine the structure if a fixed name may be a keyword of junctions, nor if
the base of the names in a subquery may be any text, nor if generated names may begin with any text.
A fixed name that is one of the keywords is taken for it by the reader, even if all comparisons have
their operands. -/
theorem structure_lost :
    (∀ reader, ¬ ReadBackBy reader (fun p => p.Plain ∧ ∀ event ∈ p.events, event.Plain) (·.Plain)) ∧
    (∀ reader, ¬ ReadBackBy reader
      (fun p => p.Plain ∧ ∀ event ∈ p.events, event.Avoids Formula.keywords) (·.Plain)) ∧
    (∀ reader, ¬ ReadBackBy reader (fun p => p.Legible ∧ p.Complete) fun _ => True) ∧
    ∀ keyword ∈ Formula.keywords, ¬ ReadBackBy Formula.read
      (fun p => p.Plain ∧ p.Complete ∧ (∀ event ∈ p.events, event.Plain) ∧
        ∀ event ∈ p.events, event.Avoids (Formula.keywords.erase keyword)) (·.Plain) :=
  ⟨junction_names_ambiguous, call_bases_ambiguous, name_starts_ambiguous,
    fun _ => keyword_names_misread⟩

end Examples

end Predicate

end GraphRead
