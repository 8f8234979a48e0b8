import GraphRead.Proofs.Rendering.Merging

/-!
# What renders to nothing leaves no trace

The parts of a junction are rendered, with all that this does to the context,
before it is known whether the junction has a text. This file proves that nothing
is dropped which has left a trace: a predicate renders to nothing exactly if it has
no comparison, no existence test and no quantifier in its Boolean structure, and
then the context is the same as before. The same holds of clauses, of which only a
condition made of such predicates and a sort without keys render to nothing.
-/

namespace GraphRead

open Render

namespace Predicate

/-- A predicate with nothing to say: it is put together from empty junctions, and from junctions and
negations of predicates with nothing to say. -/
inductive Silent : Predicate → Prop where
  | all {parts : List Predicate} (h : ∀ part ∈ parts, Silent part) : Silent (.all parts)
  | any {parts : List Predicate} (h : ∀ part ∈ parts, Silent part) : Silent (.any parts)
  | not {part : Predicate} (h : Silent part) : Silent (.not part)

variable {parts : List Predicate} {context : Context}

/-- Predicates that render to nothing do so in a row, if none of them changes the context. -/
theorem renderAll_of_none (h : ∀ part ∈ parts, part.render.result context = (.ok none, context)) :
    (renderAll parts).result context = (.ok [], context) := by
  induction parts with
  | nil => rfl
  | cons part rest ih =>
    rw [List.forall_mem_cons] at h
    rw [renderAll, result_bind_ok h.1, result_bind_ok (ih h.2)]
    rfl

/-- A predicate with nothing to say renders to nothing, and changes nothing. -/
theorem Silent.render {p : Predicate} (h : p.Silent) (context : Context) :
    p.render.result context = (.ok none, context) := by
  induction h with
  | all _ ih =>
    rw [Predicate.render, result_bind_ok (renderAll_of_none ih)]
    rfl
  | any _ ih =>
    rw [Predicate.render, result_bind_ok (renderAll_of_none ih)]
    rfl
  | not _ ih =>
    rw [Predicate.render, result_bind_ok ih]
    rfl

/-- Predicates with nothing to say render to nothing and leave the context as it is. -/
theorem Silent.renderAll (h : ∀ part ∈ parts, Silent part) (context : Context) :
    (renderAll parts).result context = (.ok [], context) := by
  refine renderAll_of_none fun part hpart => ?_
  exact (h part hpart).render context

/-- A junction is missing only if it has no parts. -/
theorem junction_eq_none {keyword : String} {texts : List String}
    (h : junction keyword texts = none) : texts = [] := by
  rcases texts with - | ⟨text, - | ⟨next, rest⟩⟩
  · rfl
  · cases h
  · cases h

mutual
/-- Only a predicate with nothing to say renders to nothing. -/
theorem gives_silent (p : Predicate) : Gives (fun text => text = none → p.Silent) p.render := by
  cases p with
  | compare comparison left right =>
    refine .last fun leftText => ?_
    split
    · exact .pure (by simp)
    · exact .last fun _ => .pure (by simp)
  | all parts =>
    refine (gives_silent_all parts).bind fun texts htexts => .pure fun hnone => ?_
    exact .all (htexts (junction_eq_none hnone))
  | any parts =>
    refine (gives_silent_all parts).bind fun texts htexts => .pure fun hnone => ?_
    exact .any (htexts (junction_eq_none hnone))
  | not part =>
    refine (gives_silent part).bind fun text htext => .pure fun hnone => ?_
    exact .not (htext (Option.map_eq_none_iff.mp hnone))
  | exist body => exact .last fun _ => .last fun _ => .pure (by simp)
  | single v list filter => exact .last fun _ => .last fun _ => .last fun _ => .pure (by simp)
termination_by structural p

/-- If predicates in a row render to nothing, each of them has nothing to say. -/
theorem gives_silent_all (parts : List Predicate) :
    Gives (fun texts => texts = [] → ∀ part ∈ parts, Silent part) (renderAll parts) := by
  cases parts with
  | nil => exact .pure fun _ => List.forall_mem_nil _
  | cons part rest =>
    refine (gives_silent part).bind fun text htext => ?_
    refine (gives_silent_all rest).bind fun texts htexts => .pure fun hnone => ?_
    obtain ⟨hfirst, hothers⟩ := List.append_eq_nil_iff.mp hnone
    rw [List.forall_mem_cons]
    exact ⟨htext (Option.toList_eq_nil_iff.mp hfirst), htexts hothers⟩
termination_by structural parts
end

/-- A predicate renders to nothing exactly if it has nothing to say. -/
theorem render_eq_none_iff (p : Predicate) (context : Context) :
    (p.render.result context).1 = .ok none ↔ p.Silent := by
  constructor
  · intro hnone
    exact gives_silent p context none hnone rfl
  · intro hsilent
    rw [hsilent.render]

end Predicate

/-- A text that opens a clause is not empty. -/
theorem OpensClause.ne_empty {text : String} (h : OpensClause text) : text ≠ "" := by
  obtain ⟨keyword, hkeyword, rest, rfl⟩ := h
  have hsome : keyword ≠ "" := by
    rintro rfl
    exact absurd hkeyword (by decide)
  simp [hsome]

namespace Statement

/-- A clause with nothing to say: a condition whose parts have nothing to say, or a sort without
keys. -/
inductive Silent : Statement → Prop where
  | filtering {parts : List Predicate} (h : ∀ part ∈ parts, part.Silent) :
      Silent (.filtering parts)
  | ordering : Silent (.ordering [])

/-- A clause with nothing to say renders to nothing, and changes nothing. -/
theorem Silent.render {s : Statement} (h : s.Silent) (context : Context) :
    s.render.result context = (.ok "", context) := by
  cases h with
  | filtering hparts =>
    rw [Statement.render, result_bind_ok (Predicate.Silent.renderAll hparts context)]
    rfl
  | ordering => rfl

/-- Only a clause with nothing to say renders to nothing. -/
theorem gives_silent (s : Statement) : Gives (fun text => text = "" → s.Silent) s.render := by
  -- All clauses but these two begin with a keyword, whatever stands in them.
  by_cases hcondition : s.isCondition = true
  · cases s with
    | filtering parts =>
      refine (Predicate.gives_silent_all parts).bind fun texts htexts => .pure fun hempty => ?_
      cases hjunction : junction "AND" texts with
      | none => exact .filtering (htexts (Predicate.junction_eq_none hjunction))
      | some text => simp [hjunction] at hempty
    | _ => cases hcondition
  · by_cases hkeys : s = .ordering []
    · subst hkeys
      exact fun _ _ _ _ => .ordering
    · intro context text htext hempty
      have hopens := gives_opensClause (eq_false_of_ne_true hcondition) hkeys context text htext
      exact absurd hempty hopens.ne_empty

/-- A clause renders to nothing exactly if it has nothing to say. -/
theorem render_eq_empty_iff (s : Statement) (context : Context) :
    (s.render.result context).1 = .ok "" ↔ s.Silent := by
  constructor
  · intro hempty
    exact gives_silent s context "" hempty rfl
  · intro hsilent
    rw [hsilent.render]

end Statement

namespace Context

/-- What renders to nothing leaves no trace. In every context a predicate renders to nothing exactly
if it is put together from empty junctions by junctions and negations, without a comparison, an
existence test or a quantifier, and then the context is exactly what it was: names, counters,
parameters, scopes and what is remembered of variables and parameters. So it is with clauses: a
condition with only such parts and a sort without keys, and no others, render to nothing, and leave
the context as it was. -/
theorem silence_leaves_no_trace (context : Context) :
    (∀ p : Predicate, ((p.render.result context).1 = .ok none ↔ p.Silent) ∧
      (p.Silent → p.render.result context = (.ok none, context))) ∧
    (∀ s : Statement, ((s.render.result context).1 = .ok "" ↔ s.Silent) ∧
      (s.Silent → s.render.result context = (.ok "", context))) := by
  constructor
  · intro p
    exact ⟨p.render_eq_none_iff context, fun h => h.render context⟩
  · intro s
    exact ⟨s.render_eq_empty_iff context, fun h => h.render context⟩

/-- A negation of junctions that are all empty in the end, and a condition made of it. -/
theorem hollow_leaves_no_trace :
    let hollow : Predicate := .not (.any [.all [], .not (.all [.any []])])
    hollow.Silent ∧ hollow.render.result (.initial {}) = (.ok none, .initial {}) ∧
      (Statement.filtering [hollow, hollow]).render.result (.initial {}) =
        (.ok "", .initial {}) := by
  intro hollow
  obtain ⟨hpredicates, hclauses⟩ := silence_leaves_no_trace (.initial {})
  have hsilent : hollow.Silent := (hpredicates hollow).1.mp rfl
  refine ⟨hsilent, (hpredicates hollow).2 hsilent, (hclauses _).2 (.filtering ?_)⟩
  simp [hsilent]

end Context

end GraphRead
