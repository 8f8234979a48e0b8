import GraphRead.Cypher.Clauses
import GraphRead.Proofs.Rendering.Step
import Mathlib.Data.List.InsertIdx
import Mathlib.Data.List.Induction

/-!
# Conditions are merged

Clauses are added to a statement one by one, and the position of the condition is
remembered while others are added behind it. This file proves that nothing is lost
or displaced: the other clauses stand in the order in which they were added, the
condition stands where the first one was added, and it has the parts of all of them.
So at most one of the rendered clauses is a condition.
-/

namespace GraphRead

/-- Whether a clause is a condition. -/
def Statement.isCondition : Statement → Bool
  | filtering _ => true
  | _ => false

/-- The parts that a condition consists of: a single one, if there is anything to say. Equalities
make one part all together. -/
def Condition.parts : Condition → List Predicate
  | .predicate none => []
  | .predicate (some p) => [p]
  | .equalities _ [] => []
  | .equalities v [(key, param)] => [.binary .equal (.property v [key]) (.param param)]
  | .equalities v values =>
    [.all (values.map fun value => .binary .equal (.property v [value.1]) (.param value.2))]

/-- Something that is added to clauses: a clause, or a condition. -/
inductive Addition where
  | clause (s : Statement)
  | condition (c : Condition)

namespace Addition

/-- Whether a condition is added. -/
def isCondition : Addition → Bool
  | clause s => s.isCondition
  | condition _ => true

/-- The clause that is added, if it is no condition. -/
def other? : Addition → Option Statement
  | clause (.filtering _) => none
  | clause s => some s
  | condition _ => none

/-- The clause that comes of an addition by itself. -/
def statement : Addition → Statement
  | clause s => s
  | condition c => .condition c

/-- The parts of the condition that is added. -/
def parts : Addition → List Predicate
  | clause (.filtering parts) => parts
  | clause _ => []
  | condition c => c.parts

/-- The clauses that are added and are no conditions. -/
def others (additions : List Addition) : List Statement := additions.filterMap other?

/-- The position of the first condition, and the parts of all of them. -/
def merged? (additions : List Addition) : Option (Nat × List Predicate) :=
  (additions.findIdx? isCondition).map fun index => (index, additions.flatMap parts)

end Addition

namespace Clauses

/-- The clauses with something added. -/
def add (clauses : Clauses) : Addition → Clauses
  | .clause s => clauses.push s
  | .condition c => clauses.andWhere c

/-- The clauses that come of additions. -/
def ofAdditions (additions : List Addition) : Clauses := additions.foldl add empty

/-- Clauses of which the given ones are no conditions, with a condition at its position. -/
def arrange (others : List Statement) : Option (Nat × List Predicate) → Clauses
  | none => ⟨others, none⟩
  | some (index, parts) => ⟨others.insertIdx index (.filtering parts), some index⟩

end Clauses

/-- A condition is a predicate exactly if it has a part. -/
theorem Condition.toList_predicate? (c : Condition) : c.predicate?.toList = c.parts := by
  cases c with
  | predicate p => cases p <;> rfl
  | equalities v values =>
    rcases values with _ | ⟨⟨key, param⟩, _ | ⟨second, rest⟩⟩
    · rfl
    · rfl
    · simp [predicate?, parts, Predicate.allOf, Predicate.combine]

namespace Addition

/-- What is added is a condition with its parts, or a clause of another kind without any. -/
theorem statement_cases (a : Addition) :
    (a.isCondition = true ∧ a.other? = none ∧ a.statement = .filtering a.parts) ∨
    (a.isCondition = false ∧ a.other? = some a.statement ∧ a.parts = [] ∧
      a.statement.isCondition = false) := by
  cases a with
  | condition c =>
    refine .inl ⟨rfl, rfl, ?_⟩
    rw [statement, Statement.condition, c.toList_predicate?]
    rfl
  | clause s =>
    cases s with
    | filtering parts => exact .inl ⟨rfl, rfl, rfl⟩
    | _ => exact .inr ⟨rfl, rfl, rfl, rfl⟩

variable {additions : List Addition}

/-- As long as there is no condition, every addition is a clause. -/
theorem of_findIdx?_eq_none (h : additions.findIdx? isCondition = none) :
    (others additions).length = additions.length ∧ additions.flatMap parts = [] := by
  rw [List.findIdx?_eq_none_iff] at h
  induction additions with
  | nil => exact ⟨rfl, rfl⟩
  | cons a rest ih =>
    rw [List.forall_mem_cons] at h
    obtain ⟨hlength, hparts⟩ := ih h.2
    obtain ⟨hcondition, -⟩ | ⟨-, hother, hnone, -⟩ := a.statement_cases
    · simp [hcondition] at h
    · exact ⟨by simp [others, hother, ← hlength], by simp [hnone, hparts]⟩

/-- The first condition stands behind clauses only. -/
theorem index_le_length {index : Nat} (h : additions.findIdx? isCondition = some index) :
    index ≤ (others additions).length := by
  induction additions generalizing index with
  | nil => simp at h
  | cons a rest ih =>
    rw [List.findIdx?_cons] at h
    obtain ⟨hcondition, -⟩ | ⟨hcondition, hother, -⟩ := a.statement_cases
    · simp [hcondition] at h
      omega
    · simp only [hcondition, Bool.false_eq_true, if_false, Option.map_eq_some_iff] at h
      obtain ⟨before, hbefore, rfl⟩ := h
      simpa [others, hother] using ih hbefore

/-- The other clauses are no conditions. -/
theorem not_condition_of_mem_others {s : Statement} (h : s ∈ others additions) :
    s.isCondition = false := by
  obtain ⟨a, -, ha⟩ := List.mem_filterMap.1 h
  obtain ⟨-, hother, -⟩ | ⟨-, hother, -, hs⟩ := a.statement_cases
  · simp [hother] at ha
  · obtain rfl : a.statement = s := by simpa [hother] using ha
    exact hs

end Addition

/-- What is inserted in front of the end stays there if something is added at the end. -/
theorem insertIdx_concat {α : Type} {list : List α} {index : Nat} (h : index ≤ list.length)
    (inserted last : α) :
    list.insertIdx index inserted ++ [last] = (list ++ [last]).insertIdx index inserted := by
  induction list generalizing index with
  | nil =>
    obtain rfl : index = 0 := by simpa using h
    rfl
  | cons head rest ih =>
    cases index with
    | zero => rfl
    | succ index =>
      simp only [List.cons_append, List.insertIdx_succ_cons, List.cons.injEq, true_and]
      exact ih (by simpa using h)

namespace Clauses

open Addition

/-- A condition is added as the clause that it is by itself. -/
theorem add_eq_push (clauses : Clauses) (a : Addition) :
    clauses.add a = clauses.push a.statement := by
  cases a <;> rfl

/-- The last addition is pushed onto the clauses of those before it. -/
theorem ofAdditions_concat (additions : List Addition) (a : Addition) :
    ofAdditions (additions ++ [a]) = (ofAdditions additions).push a.statement := by
  rw [ofAdditions, List.foldl_append, List.foldl_cons, List.foldl_nil, add_eq_push]
  rfl

/-- A clause that is no condition is put at the end, and the position of the condition is kept. -/
theorem push_other (clauses : Clauses) {s : Statement} (h : s.isCondition = false) :
    clauses.push s = ⟨clauses.children ++ [s], clauses.conditionIndex⟩ := by
  cases s with
  | filtering parts => cases h
  | _ => rfl

/-- The first condition is put at the end, and every further one is merged into it. -/
theorem arrange_push (others : List Statement) (merged : Option (Nat × List Predicate))
    (parts : List Predicate) :
    (arrange others merged).push (.filtering parts) =
      arrange others (some ((merged.map Prod.fst).getD others.length,
        (merged.map Prod.snd).getD [] ++ parts)) := by
  cases merged with
  | none => simp [arrange, push, List.insertIdx_length_self]
  | some merged =>
    obtain ⟨index, present⟩ := merged
    simp only [arrange, push]
    congr 1
    exact List.modifyTailIdx_modifyTailIdx_self index others

/-- The clauses are the others in order, with the merged condition at the position of the first. -/
theorem ofAdditions_eq (additions : List Addition) :
    ofAdditions additions = arrange (others additions) (merged? additions) := by
  -- Clauses are added at the end, so the last addition is the step.
  induction additions using List.reverseRecOn with
  | nil => rfl
  | append_singleton additions a ih =>
    rw [ofAdditions_concat, ih, merged?, merged?, List.findIdx?_append, List.flatMap_append]
    obtain ⟨hcondition, hother, hstatement⟩ | ⟨hcondition, hother, hparts, hstatement⟩ :=
      a.statement_cases
    · have hothers : others (additions ++ [a]) = others additions := by simp [others, hother]
      rw [hstatement, arrange_push, hothers]
      cases hfirst : additions.findIdx? isCondition with
      | none =>
        obtain ⟨hlength, hnone⟩ := of_findIdx?_eq_none hfirst
        simp [hcondition, hlength, hnone]
      | some index => simp [hcondition]
    · have hothers : others (additions ++ [a]) = others additions ++ [a.statement] := by
        simp [others, hother]
      rw [push_other _ hstatement, hothers]
      cases hfirst : additions.findIdx? isCondition with
      | none => simp [arrange, hcondition]
      | some index =>
        simp only [arrange, Option.map_some, Option.some_or,
          insertIdx_concat (index_le_length hfirst)]
        simp [hparts]

end Clauses

/-! ### Rendered conditions -/

namespace Render

variable {α β : Type} {P : α → Prop} {Q : β → Prop}

/-- What rendering gives, if it succeeds, satisfies a property. -/
def Gives (P : α → Prop) (m : Render α) : Prop :=
  ∀ context a, (m.result context).1 = .ok a → P a

/-- What is returned is given. -/
theorem Gives.pure {a : α} (h : P a) : Gives P (Pure.pure a) := by
  intro context b hb
  exact Except.ok.inj hb ▸ h

/-- What the second step gives is given, if it is for all that the first step gives. -/
theorem Gives.bind {m : Render α} {f : α → Render β} (hm : Gives P m)
    (hf : ∀ a, P a → Gives Q (f a)) : Gives Q (m >>= f) := by
  intro context b hb
  rcases hresult : m.result context with ⟨outcome, after⟩
  cases outcome with
  | error error =>
    rw [result_bind_failed hresult] at hb
    cases hb
  | ok a =>
    rw [result_bind_ok hresult] at hb
    exact hf a (hm context a (by rw [hresult])) after b hb

/-- Only the last step counts. -/
theorem Gives.last {m : Render α} {f : α → Render β} (hf : ∀ a, Gives Q (f a)) :
    Gives Q (m >>= f) := by
  have hm : Gives (fun _ => True) m := fun _ _ _ => trivial
  exact hm.bind fun a _ => hf a

end Render

open Render

/-- Whether a text begins as a condition does. -/
def opensCondition (text : String) : Bool := "WHERE".toList.isPrefixOf text.toList

/-- The keywords that other clauses begin with. -/
def clauseKeywords : List String :=
  ["MATCH", "OPTIONAL MATCH", "RETURN", "CALL", "WITH", "ORDER BY", "SKIP", "LIMIT"]

/-- A text that begins with the keyword of another clause. -/
def OpensClause (text : String) : Prop := ∃ keyword ∈ clauseKeywords, ∃ rest, text = keyword ++ rest

namespace OpensClause

/-- A text that opens another clause opens no condition. -/
theorem not_condition {text : String} (h : OpensClause text) : opensCondition text = false := by
  obtain ⟨keyword, hkeyword, rest, rfl⟩ := h
  rw [opensCondition, String.toList_append]
  simp only [clauseKeywords, List.mem_cons, List.not_mem_nil, or_false] at hkeyword
  rcases hkeyword with rfl | rfl | rfl | rfl | rfl | rfl | rfl | rfl <;> rfl

/-- A text that opens a clause does so with more behind it. -/
theorem append {text : String} (h : OpensClause text) (more : String) :
    OpensClause (text ++ more) := by
  obtain ⟨keyword, hkeyword, rest, rfl⟩ := h
  exact ⟨keyword, hkeyword, rest ++ more, String.append_assoc⟩

/-- A head that opens a clause does so with clauses below it. -/
theorem stacked {head : String} (h : OpensClause head) (clauses : List String) :
    OpensClause (stacked head clauses) := by
  cases clauses with
  | nil => exact h
  | cons clause rest => exact (h.append _).append _

/-- A keyword opens its clause also with a restriction to distinct rows. -/
theorem withDistinct {keyword : String} (h : keyword ∈ clauseKeywords) (distinct : Bool) :
    OpensClause (withDistinct keyword distinct) := by
  cases distinct with
  | false => exact ⟨keyword, h, "", String.append_empty.symm⟩
  | true => exact ⟨keyword, h, " DISTINCT", rfl⟩

end OpensClause

namespace Statement

/-- The keys of a sort are all rendered. -/
theorem gives_renderKeys (keys : List (Expr × SortDirection)) :
    Gives (fun texts => texts.length = keys.length) (renderKeys keys) := by
  induction keys with
  | nil => exact .pure rfl
  | cons key rest ih => exact .last fun _ => ih.bind fun _ htexts => .pure (congrArg (· + 1) htexts)

/-- A clause begins with its keyword. Only a condition and a sort without keys may be rendered to
nothing. -/
theorem gives_opensClause {s : Statement} (h : s.isCondition = false) (hkeys : s ≠ .ordering []) :
    Gives OpensClause s.render := by
  cases s with
  | filtering parts => cases h
  | matching optional pattern clauses =>
    have hopens : OpensClause (if optional then "OPTIONAL MATCH " else "MATCH ") := by
      cases optional with
      | true => exact ⟨"OPTIONAL MATCH", by decide, " ", rfl⟩
      | false => exact ⟨"MATCH", by decide, " ", rfl⟩
    exact .last fun _ => .last fun text => .last fun texts =>
      .pure ((hopens.append text).stacked texts)
  | returning distinct items =>
    have hopens := OpensClause.withDistinct (show "RETURN" ∈ clauseKeywords by decide) distinct
    exact .last fun text => .pure ((hopens.append " ").append text)
  | calling body imports base clauses =>
    have hopens : OpensClause "CALL \x7b\n" := ⟨"CALL", by decide, " \x7b\n", rfl⟩
    exact .last fun _ => .last fun _ => .last fun _ => .last fun _ => .last fun _ => .last fun _ =>
      .last fun texts => .pure (((hopens.append _).append _).stacked texts)
  | passing distinct items clauses =>
    have hopens := OpensClause.withDistinct (show "WITH" ∈ clauseKeywords by decide) distinct
    exact .last fun text => .last fun _ => .last fun texts =>
      .pure (((hopens.append " ").append text).stacked texts)
  | passingAll distinct clauses =>
    have hopens := OpensClause.withDistinct (show "WITH" ∈ clauseKeywords by decide) distinct
    exact .last fun texts => .pure ((hopens.append " *").stacked texts)
  | ordering keys =>
    have hopens : OpensClause "ORDER BY " := ⟨"ORDER BY", by decide, " ", rfl⟩
    refine (gives_renderKeys keys).bind fun texts htexts => .pure ?_
    -- There is a text for every key, so that the clause has one.
    have hsome : ¬ texts.isEmpty := by
      rw [List.isEmpty_iff_length_eq_zero, htexts, List.length_eq_zero_iff]
      rintro rfl
      exact hkeys rfl
    rw [if_neg hsome]
    exact hopens.append _
  | skipping count =>
    have hopens : OpensClause "SKIP $" := ⟨"SKIP", by decide, " $", rfl⟩
    exact .last fun name => .pure (hopens.append name)
  | limiting count =>
    have hopens : OpensClause "LIMIT $" := ⟨"LIMIT", by decide, " $", rfl⟩
    exact .last fun name => .pure (hopens.append name)

/-- Whatever is not a condition is not rendered as one. -/
theorem gives_render {s : Statement} (h : s.isCondition = false) :
    Gives (fun text => opensCondition text = false) s.render := by
  intro context text htext
  by_cases hkeys : s = .ordering []
  · subst hkeys
    obtain rfl : "" = text := Except.ok.inj htext
    rfl
  · exact (gives_opensClause h hkeys context text htext).not_condition

/-- There are no more rendered conditions than conditions. -/
theorem gives_renderAll (clauses : List Statement) :
    Gives (fun texts => texts.countP opensCondition ≤ clauses.countP isCondition)
      (renderAll clauses) := by
  induction clauses with
  | nil => exact .pure Nat.le.refl
  | cons s rest ih =>
    have hs : Gives (fun text => opensCondition text = true → s.isCondition = true) s.render := by
      intro context text htext hopens
      by_contra hcondition
      have hother := gives_render (eq_false_of_ne_true hcondition) context text htext
      simp [hother] at hopens
    refine hs.bind fun text htext => ih.bind fun texts htexts => .pure ?_
    have hfewer : (text :: texts).countP opensCondition ≤ (s :: rest).countP isCondition := by
      rw [List.countP_cons, List.countP_cons]
      refine Nat.add_le_add htexts ?_
      split
      · rename_i hopens
        simp [htext hopens]
      · exact Nat.zero_le _
    split
    · exact Nat.le_trans htexts (by rw [List.countP_cons]; exact Nat.le_add_right _ _)
    · exact hfewer

end Statement

/-! ### The condition of added clauses -/

namespace Statement

variable {clauses : List Statement} {parts present : List Predicate}

/-- Parts are added behind a clause that is no condition. -/
theorem addToCondition_cons {s : Statement} (h : s.isCondition = false) :
    addToCondition parts (s :: clauses) = (addToCondition parts clauses).map (s :: ·) := by
  cases s with
  | filtering parts => cases h
  | _ => rfl

/-- Parts cannot be added where there is no condition. -/
theorem addToCondition_eq_none (h : ∀ s ∈ clauses, s.isCondition = false) :
    addToCondition parts clauses = none := by
  induction clauses with
  | nil => rfl
  | cons s rest ih =>
    rw [List.forall_mem_cons] at h
    rw [addToCondition_cons h.1, ih h.2, Option.map_none]

/-- A condition among other clauses is found wherever it stands. -/
theorem addToCondition_insertIdx {index : Nat} (h : ∀ s ∈ clauses, s.isCondition = false)
    (hindex : index ≤ clauses.length) :
    addToCondition parts (clauses.insertIdx index (.filtering present)) =
      some (clauses.insertIdx index (.filtering (present ++ parts))) := by
  induction clauses generalizing index with
  | nil =>
    obtain rfl : index = 0 := by simpa using hindex
    rfl
  | cons s rest ih =>
    rw [List.forall_mem_cons] at h
    cases index with
    | zero => rfl
    | succ index =>
      rw [List.insertIdx_succ_cons, addToCondition_cons h.1, ih h.2 (by simpa using hindex),
        Option.map_some, List.insertIdx_succ_cons]

/-- A clause that is no condition is put at the end. -/
theorem push_other {s : Statement} (h : s.isCondition = false) :
    push clauses s = clauses ++ [s] := by
  cases s with
  | filtering parts => cases h
  | _ => rfl

end Statement

namespace Clauses

open Addition

/-- Remembering the position comes to the same as looking for the condition each time. -/
theorem children_ofAdditions (additions : List Addition) :
    (ofAdditions additions).children =
      (additions.map Addition.statement).foldl Statement.push [] := by
  induction additions using List.reverseRecOn with
  | nil => rfl
  | append_singleton additions a ih =>
    rw [List.map_append, List.foldl_append, ← ih, ofAdditions_concat, List.map_singleton,
      List.foldl_cons, List.foldl_nil]
    obtain ⟨-, -, hstatement⟩ | ⟨-, -, -, hstatement⟩ := a.statement_cases
    · rw [hstatement, ofAdditions_eq, arrange_push, merged?]
      have hothers : ∀ s ∈ others additions, s.isCondition = false :=
        fun _ => not_condition_of_mem_others
      cases hfirst : additions.findIdx? isCondition with
      | none => simp [arrange, Statement.push, Statement.addToCondition_eq_none hothers]
      | some index =>
        simp [arrange, Statement.push,
          Statement.addToCondition_insertIdx hothers (index_le_length hfirst)]
    · rw [push_other _ hstatement, Statement.push_other hstatement]

/-- Conditions that are added to a condition are its parts in their order. -/
theorem foldl_addTo (conditions : List Condition) (present : List Predicate) :
    conditions.foldl Condition.addTo present = present ++ conditions.flatMap Condition.parts := by
  induction conditions generalizing present with
  | nil => rw [List.foldl_nil, List.flatMap_nil, List.append_nil]
  | cons c rest ih =>
    rw [List.foldl_cons, ih, Condition.addTo, c.toList_predicate?, List.flatMap_cons,
      List.append_assoc]

/-- Conditions make the same clause whether they are added to the clauses or to the first of
them. -/
theorem children_of_conditions (first : Condition) (rest : List Condition) :
    (ofAdditions ((first :: rest).map .condition)).children =
      [.filtering ((first :: rest).foldl Condition.addTo [])] := by
  have hindex : ((first :: rest).map Addition.condition).findIdx? isCondition = some 0 := rfl
  have hothers : others ((first :: rest).map Addition.condition) = [] := by
    rw [others, List.filterMap_map]
    exact List.filterMap_eq_nil_iff.mpr fun _ _ => rfl
  rw [ofAdditions_eq, merged?, hindex, hothers, foldl_addTo, List.flatMap_map]
  rfl

/-- A position holds a condition if and only if it is the one that is remembered. -/
theorem isCondition_iff (additions : List Addition) (position : Nat) :
    (∃ s, (ofAdditions additions).children[position]? = some s ∧ s.isCondition = true) ↔
      (ofAdditions additions).conditionIndex = some position := by
  have hothers {i : Nat} {s : Statement} (h : (others additions)[i]? = some s) :
      s.isCondition ≠ true := by
    rw [not_condition_of_mem_others (List.mem_of_getElem? h)]
    exact Bool.false_ne_true
  rw [ofAdditions_eq, merged?]
  cases hfirst : additions.findIdx? isCondition with
  | none =>
    refine ⟨?_, fun h => by cases h⟩
    rintro ⟨s, hs, hcondition⟩
    exact absurd hcondition (hothers hs)
  | some index =>
    have hindex := index_le_length hfirst
    simp only [arrange, Option.map_some, Option.some.injEq, List.getElem?_insertIdx]
    constructor
    · rintro ⟨s, hs, hcondition⟩
      split at hs
      · exact absurd hcondition (hothers hs)
      · split at hs
        · exact Eq.symm ‹position = index›
        · exact absurd hcondition (hothers hs)
    · rintro rfl
      simp [hindex, Statement.isCondition]

/-- There is at most one condition, whatever is added. -/
theorem countP_isCondition_le (additions : List Addition) :
    (ofAdditions additions).children.countP Statement.isCondition ≤ 1 := by
  have hothers : (others additions).countP Statement.isCondition = 0 := by
    refine List.countP_eq_zero.2 fun s hs => ?_
    rw [not_condition_of_mem_others hs]
    exact Bool.false_ne_true
  rw [ofAdditions_eq, merged?]
  cases hfirst : additions.findIdx? isCondition with
  | none => exact Nat.le_trans (Nat.le_of_eq hothers) (Nat.zero_le 1)
  | some index =>
    simp only [arrange, Option.map_some]
    rw [(List.perm_insertIdx _ _ (index_le_length hfirst)).countP_eq, List.countP_cons, hothers]
    exact Nat.le.refl

/-- Adding clauses and conditions in any order loses and displaces nothing. Without a condition,
the clauses are those that were added. With one, it stands where the first condition was added,
among the other clauses in their order, and consists of the parts of all conditions in theirs. The
position that is remembered is always that of the only condition, so looking for the condition at
every addition gives the same clauses, and at most one of them is rendered as a condition. -/
theorem conditions_merge (additions : List Addition) :
    (additions.findIdx? isCondition = none →
      (ofAdditions additions).children = others additions) ∧
    (∀ index, additions.findIdx? isCondition = some index →
      index ≤ (others additions).length ∧
      (ofAdditions additions).children =
        (others additions).insertIdx index (.filtering (additions.flatMap parts))) ∧
    (ofAdditions additions).conditionIndex = additions.findIdx? isCondition ∧
    (∀ position,
      (∃ s, (ofAdditions additions).children[position]? = some s ∧ s.isCondition = true) ↔
        (ofAdditions additions).conditionIndex = some position) ∧
    (ofAdditions additions).children =
      (additions.map Addition.statement).foldl Statement.push [] ∧
    ∀ context texts,
      ((Statement.renderAll (ofAdditions additions).children).result context).1 = .ok texts →
        texts.countP opensCondition ≤ 1 := by
  refine ⟨fun hnone => ?_, fun index hindex => ⟨index_le_length hindex, ?_⟩, ?_,
    isCondition_iff additions, children_ofAdditions additions, fun context texts htexts => ?_⟩
  · rw [ofAdditions_eq, merged?, hnone]
    rfl
  · rw [ofAdditions_eq, merged?, hindex]
    rfl
  · rw [ofAdditions_eq, merged?]
    cases additions.findIdx? isCondition <;> rfl
  · exact Nat.le_trans (Statement.gives_renderAll _ context texts htexts)
      (countP_isCondition_le additions)

/-- Two conditions with a clause between them, of which the second is given by equalities: the
first keeps its place and gets a part that says them all. -/
theorem conditions_merge_around_clause :
    let film : Variable := .namedNode 0 "film" ["Film"]
    let title : Param := ⟨0, .string "Alien"⟩
    let year : Param := ⟨1, .string "1979"⟩
    let additions : List Addition :=
      [.clause (.limiting 3), .condition (.predicate (some (.isNotNull (.property film ["year"])))),
        .clause (.skipping 1), .condition (.equalities film [("title", title), ("year", year)])]
    (ofAdditions additions).conditionIndex = some 1 ∧
    (ofAdditions additions).children =
      [.limiting 3,
        .filtering [.isNotNull (.property film ["year"]),
          .all [.binary .equal (.property film ["title"]) (.param title),
            .binary .equal (.property film ["year"]) (.param year)]],
        .skipping 1] ∧
    ∃ texts, ((Statement.renderAll (ofAdditions additions).children).result (.initial {})).1 =
      .ok texts ∧ texts.countP opensCondition ≤ 1 := by
  intro film title year additions
  obtain ⟨-, hplace, hindex, -, -, hrendered⟩ := conditions_merge additions
  obtain ⟨texts, htexts⟩ : ∃ texts,
      ((Statement.renderAll (ofAdditions additions).children).result (.initial {})).1 =
        .ok texts := ⟨_, rfl⟩
  exact ⟨hindex, (hplace 1 rfl).2, texts, htexts, hrendered _ texts htexts⟩

end Clauses

end GraphRead
