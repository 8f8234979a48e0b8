import GraphRead.Proofs.Read.Scoping

/-!
# Every condition of a filter is printed

A predicate may be printed as nothing, and then the clause that it is the condition of
is left out. This never happens to a predicate that comes from a filter, nor to a
predicate inside one: such a predicate always has a text, in whatever context it is
printed.
-/

namespace GraphRead

open Event

/-- A junction of fragments is printed, if there are any. -/
theorem Fragment.isSome_junction (keyword : String) {parts : List Fragment} (h : parts ≠ []) :
    (junction keyword parts).isSome := by
  match parts with
  | [] => exact absurd rfl h
  | [_] => rfl
  | _ :: _ :: _ => rfl

namespace Predicate

variable {width : Nat} {naming : Naming}

/-- Predicates in a row are printed as something, if each is. -/
theorem printAll_ne_nil {ps : List Predicate} (hsome : ps ≠ [])
    (h : ∀ p ∈ ps, ∀ first, (p.print width naming first).isSome) (first : Nat) :
    printAll width naming first ps ≠ [] := by
  cases ps with
  | nil => exact absurd rfl hsome
  | cons p rest =>
    obtain ⟨printed, hprinted⟩ := Option.isSome_iff_exists.mp (h p List.mem_cons_self first)
    rw [printAll, hprinted]
    exact List.cons_ne_nil _ _

/-- The predicates of filters are printed. -/
theorem OfFilter.isSome_print {vs : List Variable} {p : Predicate} (h : OfFilter vs p)
    (first : Nat) : (p.print width naming first).isSome := by
  -- A junction that comes from a filter has a part, and every part is printed.
  induction h generalizing first with
  | stored hv property comparison right =>
    rw [print]
    split <;> rfl
  | included hv property p => rfl
  | result hv comparison p =>
    rw [binary, print]
    split <;> rfl
  | all hsome _ ih => exact Fragment.isSome_junction _ (printAll_ne_nil hsome ih first)
  | any hsome _ ih => exact Fragment.isSome_junction _ (printAll_ne_nil hsome ih first)
  | not _ ih =>
    rw [print, Option.isSome_map]
    exact ih first
  | anyMatch | someMatch | oneMatch | aggregates => rfl

/-- The predicate of a filter is rendered to a text in every context. What it requires to be
declared, it declares itself. -/
theorem OfFilter.render_eq_some {vs : List Variable} {p : Predicate} (h : OfFilter vs p)
    (context : Context) : ∃ text after, p.render.result context = (.ok (some text), after) := by
  have hscoped : p.Scoped ⟨[], [], vs⟩ := h.scoped_of_sees fun v hv => .inr hv
  have hpasses : Passes p.events context.view :=
    p.passes hscoped ⟨List.forall_mem_nil _, List.forall_mem_nil _⟩
  rw [Passes, ← view_runAll] at hpasses
  cases hrun : runAll p.events context with
  | error error => simp [hrun, Except.toOption] at hpasses
  | ok result =>
    obtain ⟨names, after⟩ := result
    obtain ⟨rendered, hrendered, hvalue⟩ := (Predicate.traced context.options p).ok rfl hrun
    have hprinted := hvalue _ 0 (after.naming_agrees names) (after.naming_agreesFrom names)
    obtain ⟨printed, hsome⟩ := Option.isSome_iff_exists.mp (h.isSome_print 0)
    rw [hsome] at hprinted
    exact ⟨printed.text, after, hrendered.trans (by rw [← hprinted]; rfl)⟩

end Predicate

end GraphRead
