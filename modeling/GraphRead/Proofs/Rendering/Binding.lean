import GraphRead.Proofs.Rendering.Assignment

/-!
# What events bind

A run binds the values of the parameters that it meets for the first time, and
those of pages. If every parameter is met once, the table that it leaves behind
lists the values of its events in order. Parameters with increasing identities
are met once.
-/

namespace GraphRead

open Context

namespace Event

/-- Whether an event matters for the parameter table: it asks for a row, or it opens a subquery,
in which the names of rows have a stem of their own. -/
@[simp]
def isBinding : Event → Bool
  | .param _ => true
  | .page _ => true
  | .openChild _ _ => true
  | _ => false

/-- The events that matter for the parameter table. -/
def bindings (events : List Event) : List Event := events.filter isBinding

/-- The value of the row that an event asks for. -/
def value? : Event → Option Json
  | .param p => some p.value
  | .page count => some (.ofNat count.toNat)
  | _ => none

/-- The identity of the parameter that an event asks for. -/
def identity? : Event → Option Nat
  | .param p => some p.identity
  | _ => none

/-- Nothing binds nothing. -/
@[simp]
theorem bindings_nil : bindings [] = [] := rfl

/-- Events in a row bind what the first and what the others bind. -/
@[simp]
theorem bindings_append (first second : List Event) :
    bindings (first ++ second) = bindings first ++ bindings second :=
  List.filter_append ..

/-- The first event counts if it matters for the parameter table. -/
@[simp]
theorem bindings_cons (event : Event) (rest : List Event) :
    bindings (event :: rest) =
      if event.isBinding then event :: bindings rest else bindings rest :=
  List.filter_cons

/-- Events of which none matters for the parameter table. -/
theorem bindings_map {α : Type} (event : α → Event) (h : ∀ a, (event a).isBinding = false)
    (as : List α) : bindings (as.map event) = [] := by
  refine List.filter_eq_nil_iff.mpr fun e he => ?_
  obtain ⟨a, -, rfl⟩ := List.mem_map.mp he
  exact Bool.eq_false_iff.mp (h a)

/-- Declaring variables binds nothing. -/
@[simp]
theorem bindings_map_declare (vs : List Variable) : bindings (vs.map .declare) = [] :=
  bindings_map _ (fun _ => rfl) vs

/-- Requiring variables binds nothing. -/
@[simp]
theorem bindings_map_require (clause : ReadingClause) (vs : List Variable) :
    bindings (vs.map (.require clause)) = [] :=
  bindings_map _ (fun _ => rfl) vs

/-- Whether an event asks for a parameter. -/
def IsParam (event : Event) : Prop := event.identity?.isSome

/-- Events bind the given values, in order, and their parameters have increasing identities from
`lo` up to `hi`. Only events of the given kinds matter for the parameter table. -/
structure Binds (kinds : Event → Prop) (lo hi : Nat) (events : List Event) (values : List Json) :
    Prop where
  values : (bindings events).filterMap value? = values
  range : ∀ i ∈ (bindings events).filterMap identity?, lo ≤ i ∧ i < hi
  ordered : ((bindings events).filterMap identity?).Pairwise (· < ·)
  le : lo ≤ hi
  kinds : ∀ event ∈ bindings events, kinds event

namespace Binds

variable {kinds : Event → Prop} {lo middle hi : Nat} {events others : List Event}
  {values more : List Json}

/-- Only the events that matter for the parameter table are looked at. -/
theorem congr (h : Binds kinds lo hi events values) (heq : bindings others = bindings events) :
    Binds kinds lo hi others values := by
  obtain ⟨hvalues, hrange, hordered, hle, hkinds⟩ := h
  exact ⟨heq ▸ hvalues, heq ▸ hrange, heq ▸ hordered, hle, heq ▸ hkinds⟩

/-- Events that bind nothing use no identities. -/
theorem silent (h : bindings events = []) (hle : lo ≤ hi) : Binds kinds lo hi events [] := by
  refine ⟨?_, ?_, ?_, hle, ?_⟩ <;> simp [h]

/-- Events in a row bind their values in order, if the identities of the others are later. -/
theorem append (h : Binds kinds lo middle events values)
    (h' : Binds kinds middle hi others more) :
    Binds kinds lo hi (events ++ others) (values ++ more) where
  values := by rw [bindings_append, List.filterMap_append, h.values, h'.values]
  range := by
    intro i hi'
    rw [bindings_append, List.filterMap_append, List.mem_append] at hi'
    have hle := h.le
    have hle' := h'.le
    rcases hi' with hi' | hi'
    · have := h.range i hi'
      omega
    · have := h'.range i hi'
      omega
  ordered := by
    rw [bindings_append, List.filterMap_append]
    refine List.pairwise_append.mpr ⟨h.ordered, h'.ordered, fun i hi' j hj => ?_⟩
    have := h.range i hi'
    have := h'.range j hj
    omega
  le := Nat.le_trans h.le h'.le
  kinds := by
    intro event hevent
    rw [bindings_append, List.mem_append] at hevent
    exact hevent.elim (h.kinds event) (h'.kinds event)

/-- More identities may be taken than are bound. -/
theorem weaken {lo' hi' : Nat} (h : Binds kinds lo hi events values) (hlo : lo' ≤ lo)
    (hhi : hi ≤ hi') : Binds kinds lo' hi' events values where
  values := h.values
  range := by
    intro i hi
    have := h.range i hi
    omega
  ordered := h.ordered
  le := Nat.le_trans hlo (Nat.le_trans h.le hhi)
  kinds := h.kinds

/-- The kinds of events may be forgotten. -/
theorem any (h : Binds kinds lo hi events values) : Binds (fun _ => True) lo hi events values where
  values := h.values
  range := h.range
  ordered := h.ordered
  le := h.le
  kinds _ _ := trivial

/-- A parameter with the next identity. -/
theorem param (value : Json) : Binds IsParam lo (lo + 1) [.param ⟨lo, value⟩] [value] where
  values := rfl
  range := by simp [identity?]
  ordered := List.pairwise_singleton ..
  le := Nat.le_succ lo
  kinds := by simp [IsParam, identity?]

/-- The number of a page takes no identity. -/
theorem page (count : UInt64) :
    Binds (fun _ => True) lo lo [.page count] [.ofNat count.toNat] where
  values := rfl
  range := by simp [identity?]
  ordered := .nil
  le := Nat.le_refl lo
  kinds := fun _ _ => trivial

/-- Opening a subquery binds nothing. -/
theorem openChild (base : Option String) (imports : List Variable) :
    Binds (fun _ => True) lo lo [.openChild base imports] [] where
  values := rfl
  range := by simp [identity?]
  ordered := .nil
  le := Nat.le_refl lo
  kinds := fun _ _ => trivial

end Binds

variable {kinds : Event → Prop}

/-- All parameters matter for the parameter table. -/
theorem filterMap_identity?_bindings (events : List Event) :
    (bindings events).filterMap identity? = events.filterMap identity? := by
  rw [bindings, List.filterMap_filter]
  refine List.filterMap_congr fun event _ => ?_
  cases event <;> rfl

/-- A parameter in front of others with increasing identities has the least one. -/
theorem identity_lt {p q : Param} {rest : List Event}
    (h : ((Event.param p :: rest).filterMap identity?).Pairwise (· < ·))
    (hq : Event.param q ∈ rest) : p.identity < q.identity := by
  have hcons : (Event.param p :: rest).filterMap identity? =
      p.identity :: rest.filterMap identity? := rfl
  rw [hcons] at h
  exact (List.pairwise_cons.mp h).1 _ (List.mem_filterMap.mpr ⟨_, hq, rfl⟩)

/-- Parameters with increasing identities are the same if their identities are. -/
theorem Binds.eq_of_identity {lo hi : Nat} {events : List Event} {values : List Json}
    (h : Binds kinds lo hi events values) {p q : Param} (hp : Event.param p ∈ events)
    (hq : Event.param q ∈ events) (heq : p.identity = q.identity) : p = q := by
  have hordered := h.ordered
  rw [filterMap_identity?_bindings] at hordered
  clear h
  induction events with
  | nil => simp at hp
  | cons event rest ih =>
    have hrest : (rest.filterMap identity?).Pairwise (· < ·) :=
      hordered.sublist ((List.sublist_cons_self event rest).filterMap identity?)
    rcases List.mem_cons.mp hp with rfl | hp' <;> rcases List.mem_cons.mp hq with hq' | hq'
    · exact (Event.param.inj hq').symm
    · have := identity_lt hordered hq'
      omega
    · subst hq'
      have := identity_lt hordered hp'
      omega
    · exact ih hp' hq' hrest

/-- One event adds the value that it asks for, unless it asks for a parameter that has a row. -/
theorem values_run {event : Event} {context after : Context} {names : List String}
    (h : event.run context = .ok (names, after))
    (hnew : ∀ p, event = .param p → context.isNew (.param p) = true) :
    after.params.map Prod.snd = context.params.map Prod.snd ++ event.value?.toList := by
  cases steps_of_run h with
  | name v =>
    cases hname : v.name with
    | some name => simp [run_variableName_fixed hname, value?]
    | none =>
      cases hlookup : context.variableNames.lookup v with
      | some name => simp [run_variableName_some hname hlookup, value?]
      | none => simp [run_variableName_none hname hlookup, run_allocate, value?]
  | param p =>
    have hlookup : context.paramNames.lookup p = none := by simpa [isNew] using hnew p rfl
    simp [run_paramName_none hlookup, run_bindValue, run_allocate, value?]
  | require _ _ | page _ | declare _ | retain _ | openChild _ _ | openNested | close =>
    simp [run_bindValue, run_allocate, run_declare, run_retain, enter, value?]

/-- A run that meets every parameter once adds the values of its events in order. -/
theorem values_runAll {events : List Event} {context after : Context} {names : List String}
    (h : runAll events context = .ok (names, after))
    (hnew : ∀ p, Event.param p ∈ events → context.isNew (.param p) = true)
    (hordered : (events.filterMap identity?).Pairwise (· < ·)) :
    after.params.map Prod.snd = context.params.map Prod.snd ++ events.filterMap value? := by
  induction events generalizing context names with
  | nil =>
    simp only [runAll, Except.ok.injEq, Prod.mk.injEq] at h
    simp [h.2]
  | cons event rest ih =>
    obtain ⟨before, others, middle, hevent, hrest, -⟩ := RunResult.andThen_eq_ok h
    have hstep := values_run hevent fun p hp => hnew p (by simp [hp])
    have hordered' : (rest.filterMap identity?).Pairwise (· < ·) :=
      hordered.sublist ((List.sublist_cons_self event rest).filterMap identity?)
    have hnew' (p : Param) (hp : Event.param p ∈ rest) : middle.isNew (.param p) = true := by
      have hother : Handle.param p ∉ event.asked := by
        intro hasked
        cases event <;> simp only [asked, List.mem_singleton, List.not_mem_nil,
          reduceCtorEq, Handle.param.injEq] at hasked
        subst hasked
        have := identity_lt hordered hp
        omega
      rw [isNew_run hevent]
      simp [hnew p (List.mem_cons_of_mem _ hp), hother]
    rw [ih hrest hnew' hordered', hstep, List.append_assoc]
    cases hvalue : event.value? <;> simp [hvalue]

/-- A run from the start that meets every parameter once leaves the values of its events behind,
under different names. -/
theorem Binds.table {lo hi : Nat} {events : List Event} {values : List Json}
    (hbinds : Binds kinds lo hi events values) {options : RenderOptions} {after : Context}
    {names : List String} (h : runAll events (.initial options) = .ok (names, after)) :
    after.params.map Prod.snd = values ∧ (after.params.map Prod.fst).Nodup := by
  have hvalue : (bindings events).filterMap value? = events.filterMap value? := by
    rw [bindings, List.filterMap_filter]
    refine List.filterMap_congr fun event _ => ?_
    cases event <;> rfl
  constructor
  · have hordered := hbinds.ordered
    rw [filterMap_identity?_bindings] at hordered
    rw [values_runAll h (fun p _ => by simp [isNew, initial]) hordered, ← hvalue, hbinds.values]
    rfl
  · have hgains := gains_runAll h (after.naming_agrees names) (after.naming_agreesFrom names)
    rw [hgains.params]
    refine List.Nodup.sublist ?_ hgains.distinct
    show List.Sublist (([] ++ _).map Prod.fst) _
    rw [List.nil_append, List.map_filterMap]
    -- A row bears the name of its handle, so the names of rows are among those of handles.
    generalize newHandles (.initial options) 0 events = new
    induction new with
    | nil => exact .slnil
    | cons handle rest ih =>
      cases handle with
      | var v => exact ih.cons _
      | param p => exact ih.cons_cons _
      | page number count => exact ih.cons_cons _

end Event

end GraphRead
