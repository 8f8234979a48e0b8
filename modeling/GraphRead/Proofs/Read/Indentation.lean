import GraphRead.Proofs.Read.Containment
import GraphRead.Proofs.Rendering.Layout

/-!
# Queries with another indentation

The width of indentation has no influence on whether a request is answered, on
names and on parameters. It moves the lines of bodies, and the lines of quotations
in them. So two queries for the same request differ only in blanks at the start of
lines, and they have the same quotations unless a name with a line feed is quoted
in the body of a subquery or of an existence test.
-/

namespace GraphRead

open Event Context
open Text (quotations)

namespace Context

/-- The context with another width of indentation. -/
def resized (width : Nat) (context : Context) : Context :=
  { context with options := { context.options with indentWidth := width } }

variable (width : Nat) (context : Context)

/-- Names of variables do not depend on the width of indentation. -/
theorem run_variableName_resized (v : Variable) :
    (variableName v).run (context.resized width) =
      (((variableName v).run context).1, ((variableName v).run context).2.resized width) := by
  have hsame : (context.resized width).variableNames = context.variableNames := rfl
  cases hname : v.name with
  | some name => rw [run_variableName_fixed hname, run_variableName_fixed hname]
  | none =>
    cases hlookup : context.variableNames.lookup v with
    | some name =>
      rw [run_variableName_some hname hlookup, run_variableName_some hname (hsame ▸ hlookup)]
    | none =>
      rw [run_variableName_none hname hlookup, run_variableName_none hname (hsame ▸ hlookup)]
      rfl

/-- Names of parameters do not depend on the width of indentation. -/
theorem run_paramName_resized (p : Param) :
    (paramName p).run (context.resized width) =
      (((paramName p).run context).1, ((paramName p).run context).2.resized width) := by
  have hsame : (context.resized width).paramNames = context.paramNames := rfl
  cases hlookup : context.paramNames.lookup p with
  | some name => rw [run_paramName_some hlookup, run_paramName_some (hsame ▸ hlookup)]
  | none =>
    rw [run_paramName_none hlookup, run_paramName_none (hsame ▸ hlookup)]
    rfl

/-- Leaving a scope keeps the width of indentation. -/
theorem leave_resized : (context.resized width).leave = context.leave.resized width := by
  obtain ⟨options, names, scope, enclosing, variableNames, paramNames, params, depth⟩ := context
  cases enclosing <;> rfl

end Context

namespace Event

/-- An event does not depend on the width of indentation. -/
theorem run_resized (width : Nat) (event : Event) (context : Context) :
    event.run (context.resized width) =
      (event.run context).map fun result => (result.1, result.2.resized width) := by
  cases event with
  | name v =>
    simp only [run, run_variableName_resized]
    rfl
  | param p =>
    simp only [run, run_paramName_resized]
    rfl
  | require clause v =>
    have hdeclared : (context.resized width).isDeclared v = context.isDeclared v := rfl
    simp only [run, hdeclared, run_variableName_resized]
    split <;> rfl
  | close =>
    simp only [run, leave_resized]
    rfl
  | page _ | reject _ | declare _ | retain _ | openChild _ _ | openNested => rfl

/-- Events in a row do not depend on the width of indentation. -/
theorem runAll_resized (width : Nat) (events : List Event) (context : Context) :
    runAll events (context.resized width) =
      (runAll events context).map fun result => (result.1, result.2.resized width) := by
  induction events generalizing context with
  | nil => rfl
  | cons event rest ih =>
    rw [runAll, runAll, run_resized]
    cases event.run context with
    | error error => rfl
    | ok result =>
      show (runAll rest (result.2.resized width)).map _ = ((runAll rest result.2).map _).map _
      rw [ih]
      cases runAll rest result.2 <;> rfl

end Event

/-- A harmless statement that is built with one width is built with any other. Both texts have the
same layout, which is closed if all names are plain. -/
theorem Statement.build_resized {statement : Statement} {options : RenderOptions} {query : Query}
    (hharmless : statement.Harmless) (h : statement.build options = .ok query) (width : Nat) :
    ∃ naming other, statement.build { options with indentWidth := width } = .ok other ∧
      other.params = query.params ∧
      query.text = (statement.layout naming 0).render options.indentWidth ∧
      other.text = (statement.layout naming 0).render width ∧
      (options.Plain → (∀ event ∈ statement.events, event.Plain) →
        (statement.layout naming 0).Closed) := by
  obtain ⟨pageNames, after, hrun, htext, hparams⟩ := printed_of_build h
  have hagrees := after.naming_agrees pageNames
  have hpages := after.naming_agreesFrom pageNames
  have hresized : runAll statement.events (.initial { options with indentWidth := width }) =
      .ok (pageNames, after.resized width) := by
    have hrun' := runAll_resized width statement.events (.initial options)
    rw [hrun] at hrun'
    exact hrun'
  obtain ⟨text', hbuilt', htext'⟩ := build_ok hresized
  have hlaid (width : Nat) := statement.laidOut_print width (after.naming pageNames) 0 hharmless
  refine ⟨after.naming pageNames, _, hbuilt', hparams.symm, ?_, ?_, fun hplain hevents => ?_⟩
  · exact htext.trans (hlaid _).text
  · exact (htext' _ ⟨hagrees.var, hagrees.param⟩ hpages).symm.trans (hlaid width).text
  · refine (hlaid options.indentWidth).closed fun handle hhandle => ?_
    exact Text.contained_of_isPlain (isPlain_name hplain hevents hrun hagrees hpages handle hhandle)

namespace Read

/-- What another width of indentation changes. A request that is answered is answered with any width
and with the same parameters, and the queries differ only in blanks at the start of lines. If the
prefixes are plain, the quotations are those of the layout, with their lines moved once for every
body around them. They are the same if those in bodies have no line feeds. -/
theorem query_reindented {schema : Schema} {name : String} {wanted : Request}
    {settings : Settings} {result : Query} (h : query schema name wanted settings = .ok result)
    (width : Nat) :
    ∃ (statement : Statement) (naming : Naming) (other : Query),
      Read.statement schema name wanted settings = .ok statement ∧
      query schema name wanted { settings with indentWidth := width } = .ok other ∧
      other.params = result.params ∧
      result.text = (statement.layout naming 0).render settings.indentWidth ∧
      other.text = (statement.layout naming 0).render width ∧
      Text.Realigned result.text other.text ∧
      (settings.toRenderOptions.Plain →
        quotations false result.text.toList =
          (statement.layout naming 0).quoted.map (Quotation.printed settings.indentWidth) ∧
        quotations false other.text.toList =
          (statement.layout naming 0).quoted.map (Quotation.printed width) ∧
        ((∀ q ∈ (statement.layout naming 0).quoted, 0 < q.depth → '\n' ∉ q.content) →
          quotations false result.text.toList =
            (statement.layout naming 0).quoted.map Quotation.content ∧
          quotations false other.text.toList = quotations false result.text.toList)) := by
  obtain ⟨statement, hstatement, hbuild⟩ := FilterReader.bind_eq_ok h
  have hclean : statement.Clean fun _ => True :=
    clean_of_root (fun _ _ => trivial) (fun _ _ => trivial) hstatement
  obtain ⟨naming, other, hother, hparams, htext, htext', hclosed⟩ :=
    Statement.build_resized hclean.harmless (Plan.eq_ok_of_mapError hbuild) width
  -- The statement does not depend on the width, so that only building it is different.
  have hquery : query schema name wanted { settings with indentWidth := width } = .ok other := by
    show (Read.statement schema name wanted settings).bind _ = _
    rw [hstatement]
    show (statement.build { settings.toRenderOptions with indentWidth := width }).mapError _ = _
    rw [hother]
    rfl
  refine ⟨statement, naming, other, hstatement, hquery, hparams, htext, htext', ?_, ?_⟩
  · rw [htext, htext']
    exact Text.realigned_of_flushed (Layout.flushed_render ..)
  · intro hplain
    have hclosed := hclosed hplain (clean_of_statement hplain.ofVariable hstatement).plain
    have hresult := Layout.quotations_render hclosed settings.indentWidth
    have hother := Layout.quotations_render hclosed width
    rw [← htext] at hresult
    rw [← htext'] at hother
    refine ⟨hresult, hother, fun hfeed => ?_⟩
    have hprinted (width : Nat) : (statement.layout naming 0).quoted.map
        (Quotation.printed width) = (statement.layout naming 0).quoted.map Quotation.content :=
      List.map_congr_left fun q hq => Quotation.printed_eq_content (hfeed q hq) width
    rw [hresult, hother, hprinted, hprinted]
    exact ⟨rfl, rfl⟩

/-- A schema with a line feed in a label. -/
def stageSchema : Schema :=
  ⟨[⟨"Film", ["Film"], [⟨"cast", none, .relationship ⟨"ACTED_IN", .incoming, "Actor", true, []⟩⟩]⟩,
    ⟨"Actor", ["Stage\nActor"], []⟩]⟩

/-- A request for the films with a cast, which are found with that label. -/
def stageRequest : Request :=
  ⟨some (.object [("cast_SOME", .object [])]), [], none, none, ⟨[], [], []⟩⟩

/-- The label is quoted in the body of an existence test, where its second line is indented too. -/
theorem stageRequest_reindented :
    ∃ result other, query stageSchema "Film" stageRequest {} = .ok result ∧
      query stageSchema "Film" stageRequest { indentWidth := 0 } = .ok other ∧
      Text.Realigned result.text other.text ∧
      (quotations false result.text.toList).map String.ofList = ["Stage\n    Actor"] ∧
      (quotations false other.text.toList).map String.ofList = ["Stage\nActor"] := by
  have hok : (query stageSchema "Film" stageRequest {}).isOk = true := by decide +kernel
  obtain ⟨result, hquery⟩ := Plan.exists_of_isOk hok
  obtain ⟨_, _, other, _, hother, _, _, _, hrealigned, _⟩ := query_reindented hquery 0
  have hprinted (settings : Settings) (contents : List String)
      (h : (query stageSchema "Film" stageRequest settings).toOption.map (fun query =>
        (quotations false query.text.toList).map String.ofList) = some contents)
      {query : Query} (hquery : Read.query stageSchema "Film" stageRequest settings = .ok query) :
      (quotations false query.text.toList).map String.ofList = contents := by
    rw [hquery] at h
    exact Option.some.inj h
  exact ⟨result, other, hquery, hother, hrealigned, hprinted {} _ (by decide +kernel) hquery,
    hprinted { indentWidth := 0 } _ (by decide +kernel) hother⟩

end Read

end GraphRead
