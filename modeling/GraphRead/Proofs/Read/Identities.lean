import GraphRead.Proofs.Rendering.Renaming
import GraphRead.Read.Plan
import Mathlib.Data.List.Range

/-!
# Which identities are taken

Planning takes identities from a counter. Two plans may take different ones, since
they start at different numbers or since one of them takes some that it does not
use. They are parallel if they fail alike, and if otherwise the identities that the
first takes can be sent to those that the second takes so that the results become
equal. What is sent where is fixed only as far as identities have been taken, so
that parallel plans can be put one after another.
-/

namespace GraphRead

/-- The same new identities for variables and for parameters. -/
def Renaming.both (g : Nat → Nat) : Renaming := ⟨g, g⟩

namespace Plan

/-- The numbers from `next` on are sent to the given identities. -/
def Sends (g : Nat → Nat) (next : Nat) (ids : List Nat) : Prop :=
  (List.range' next ids.length).map g = ids

/-- Identities that were taken in this order between two states of the counter. -/
structure Ascends (lo : Nat) (ids : List Nat) (hi : Nat) : Prop where
  le : lo ≤ hi
  ordered : ids.Pairwise (· < ·)
  range : ∀ id ∈ ids, lo ≤ id ∧ id < hi

/-- What sends a list sends both parts of it, the second from where the first ends. -/
theorem Sends.append {g : Nat → Nat} {next : Nat} {first second : List Nat}
    (h : Sends g next (first ++ second)) :
    Sends g next first ∧ Sends g (next + first.length) second := by
  unfold Sends at h
  rw [List.length_append, ← List.range'_append_1, List.map_append] at h
  exact List.append_inj h (by simp)

/-- Nothing ascends between bounds that are in order. -/
theorem Ascends.nil {lo hi : Nat} (h : lo ≤ hi) : Ascends lo [] hi :=
  ⟨h, .nil, List.forall_mem_nil _⟩

/-- Lists that ascend one after the other ascend together. -/
theorem Ascends.append {lo middle hi : Nat} {first second : List Nat}
    (h : Ascends lo first middle) (h' : Ascends middle second hi) :
    Ascends lo (first ++ second) hi where
  le := Nat.le_trans h.le h'.le
  ordered := by
    refine List.pairwise_append.mpr ⟨h.ordered, h'.ordered, fun a ha b hb => ?_⟩
    exact Nat.lt_of_lt_of_le (h.range a ha).2 (h'.range b hb).1
  range := by
    refine List.forall_mem_append.mpr ⟨fun id hid => ?_, fun id hid => ?_⟩
    · exact ⟨(h.range id hid).1, Nat.lt_of_lt_of_le (h.range id hid).2 h'.le⟩
    · exact ⟨Nat.le_trans h.le (h'.range id hid).1, (h'.range id hid).2⟩

/-- Two outcomes of plans: the same failure, or results that become the same when identities that
the first has taken are sent to those of the second. Of other identities something may be known. -/
inductive ParallelOutcome {α α' : Type} (known : (Nat → Nat) → Prop)
    (same : (Nat → Nat) → α → α' → Prop) (next next' : Nat) :
    Except ReadError (α × Nat) → Except ReadError (α' × Nat) → Prop where
  | ok {a : α} {a' : α'} {last' : Nat} (ids : List Nat) (hascends : Ascends next' ids last')
    (hsame : ∀ g, known g → Sends g next ids → same g a a') :
    ParallelOutcome known same next next' (.ok (a, next + ids.length)) (.ok (a', last'))
  | error (error : ReadError) : ParallelOutcome known same next next' (.error error) (.error error)

/-- Two plans differ at most in the identities that they take. -/
def Parallel {α α' : Type} (known : (Nat → Nat) → Prop) (same : (Nat → Nat) → α → α' → Prop)
    (m : Plan α) (m' : Plan α') : Prop :=
  ∀ next next', ParallelOutcome known same next next' (m.run next) (m'.run next')

section Steps

variable {α α' β β' : Type} {known : (Nat → Nat) → Prop} {same : (Nat → Nat) → α → α' → Prop}
  {same' : (Nat → Nat) → β → β' → Prop} {m : Plan α} {m' : Plan α'}

/-- Results that are the same are planned in parallel. -/
theorem Parallel.pure {a : α} {a' : α'} (h : ∀ g, known g → same g a a') :
    Parallel known same (pure a) (pure a') := by
  intro next next'
  exact .ok [] (.nil (Nat.le_refl next')) fun g hg _ => h g hg

/-- Outcomes in parallel are continued in parallel, if what is known includes how the results are
the same. -/
theorem ParallelOutcome.bind {next next' : Nat} {first : Except ReadError (α × Nat)}
    {first' : Except ReadError (α' × Nat)} {k : α → Plan β} {k' : α' → Plan β'}
    (h : ParallelOutcome known same next next' first first')
    (hk : ∀ a a', Parallel (fun g => known g ∧ same g a a') same' (k a) (k' a')) :
    ParallelOutcome known same' next next' (first.bind fun result => (k result.1).run result.2)
      (first'.bind fun result => (k' result.1).run result.2) := by
  cases h with
  | error error => exact .error error
  | @ok a a' middle' ids hascends hsame =>
    show ParallelOutcome known same' next next' ((k a).run (next + ids.length))
      ((k' a').run middle')
    have houtcome := hk a a' (next + ids.length) middle'
    generalize (k a).run (next + ids.length) = second at houtcome ⊢
    generalize (k' a').run middle' = second' at houtcome ⊢
    cases houtcome with
    | error error => exact .error error
    | ok ids' hascends' hsame' =>
      rw [Nat.add_assoc, ← List.length_append]
      -- The identities of the second step follow those of the first, on both sides.
      refine .ok (ids ++ ids') (hascends.append hascends') fun g hg hsends => ?_
      obtain ⟨hfirst, hsecond⟩ := hsends.append
      exact hsame' g ⟨hg, hsame g hg hfirst⟩ hsecond

/-- Parallel plans, followed by plans that are parallel if the results before them are the
same. -/
theorem Parallel.bind {k : α → Plan β} {k' : α' → Plan β'} (h : Parallel known same m m')
    (hk : ∀ a a', Parallel (fun g => known g ∧ same g a a') same' (k a) (k' a')) :
    Parallel known same' (m >>= k) (m' >>= k') := by
  intro next next'
  exact (h next next').bind hk

/-- Plans that are parallel by what is known of identities are so if more is known. -/
theorem Parallel.narrow (known' : (Nat → Nat) → Prop) (hknown : ∀ g, known g → known' g)
    (h : Parallel known' same m m') : Parallel known same m m' := by
  intro next next'
  have houtcome := h next next'
  generalize m.run next = outcome at houtcome ⊢
  generalize m'.run next' = outcome' at houtcome ⊢
  cases houtcome with
  | ok ids hascends hsame => exact .ok ids hascends fun g hg => hsame g (hknown g hg)
  | error error => exact .error error

/-- Plans that fail alike are parallel. -/
theorem parallel_throw (error : ReadError) :
    Parallel known same (throw error : Plan α) (throw error : Plan α') := by
  intro next next'
  exact .error error

end Steps

/-- Two computations that only take identities differ at most in which these are. -/
def ParallelFresh {α α' : Type} (known : (Nat → Nat) → Prop) (same : (Nat → Nat) → α → α' → Prop)
    (m : Fresh α) (m' : Fresh α') : Prop :=
  Parallel known same (Plan.fresh m) (Plan.fresh m')

namespace ParallelFresh

variable {α α' β β' : Type} {known : (Nat → Nat) → Prop} {same : (Nat → Nat) → α → α' → Prop}
  {same' : (Nat → Nat) → β → β' → Prop} {m : Fresh α} {m' : Fresh α'}

/-- Results that are the same are computed in parallel. -/
theorem pure {a : α} {a' : α'} (h : ∀ g, known g → same g a a') :
    ParallelFresh known same (Pure.pure a) (Pure.pure a') :=
  Parallel.pure h

/-- Computations in parallel are continued in parallel, if what is known includes how the results
are the same. -/
theorem bind {k : α → Fresh β} {k' : α' → Fresh β'} (h : ParallelFresh known same m m')
    (hk : ∀ a a', ParallelFresh (fun g => known g ∧ same g a a') same' (k a) (k' a')) :
    ParallelFresh known same' (m >>= k) (m' >>= k') :=
  Parallel.bind h hk

/-- The counter does not go back. -/
theorem le (h : ParallelFresh known same m m') (next : Nat) : next ≤ (m'.run next).2 := by
  have houtcome : ParallelOutcome known same next next (.ok (m.run next)) (.ok (m'.run next)) :=
    h next next
  generalize m.run next = result at houtcome
  generalize m'.run next = result' at houtcome ⊢
  cases houtcome with
  | ok ids hascends hsame => exact hascends.le

/-- A new identity is sent to the other new identity. -/
theorem identity : ParallelFresh known (fun g a a' => g a = a') Fresh.identity Fresh.identity := by
  intro next next'
  refine .ok [next'] ⟨Nat.le_succ next', List.pairwise_singleton .., by simp⟩ ?_
  intro g hg hsends
  exact List.singleton_inj.mp hsends

/-- A new variable is sent to the other new variable. -/
theorem make {make : Nat → Variable}
    (hmake : ∀ g n, (make n).rename (.both g) = make (g n)) :
    ParallelFresh known (fun g v v' => v.rename (.both g) = v')
      (do return make (← Fresh.identity)) (do return make (← Fresh.identity)) := by
  refine .bind .identity fun n n' => .pure fun g hg => ?_
  rw [hmake, hg.2]

/-- New nodes are the same up to their identities. -/
theorem node (labels : List String) :
    ParallelFresh known (fun g v v' => v.rename (.both g) = v') (Fresh.node labels)
      (Fresh.node labels) :=
  .make fun _ _ => rfl

/-- New relationships are the same up to their identities. -/
theorem relationship (type : String) :
    ParallelFresh known (fun g v v' => v.rename (.both g) = v') (Fresh.relationship type)
      (Fresh.relationship type) :=
  .make fun _ _ => rfl

/-- New values are the same up to their identities. -/
theorem value :
    ParallelFresh known (fun g v v' => v.rename (.both g) = v') Fresh.value Fresh.value :=
  .make fun _ _ => rfl

/-- New parameters of the same content are the same up to their identities. -/
theorem param (content : Json) :
    ParallelFresh known (fun g p p' => p.rename (.both g) = p') (Fresh.param content)
      (Fresh.param content) := by
  refine .bind .identity fun n n' => .pure fun g hg => ?_
  rw [← hg.2]
  rfl

end ParallelFresh

/-- The numbers from `next` on in order to given identities, and an older number to itself. -/
def target (root next : Nat) (ids : List Nat) (n : Nat) : Nat :=
  if n = root then root else ids[n - next]?.getD 0

/-- An identity that was handed out is sent to the one at its position. -/
theorem target_of_mem {root next : Nat} {ids : List Nat} (hroot : root < next) {n : Nat}
    (hn : n ∈ List.range' next ids.length) :
    ∃ hlt : n - next < ids.length, target root next ids n = ids[n - next] := by
  have hrange := List.mem_range'_1.mp hn
  have hne : n ≠ root := by omega
  refine ⟨by omega, ?_⟩
  rw [target, if_neg hne, List.getElem?_eq_getElem, Option.getD_some]

/-- Identities that were taken one after another are different, and none of them is older. -/
theorem keepsApart_target {root next next' last' : Nat} {ids : List Nat} (hroot : root < next)
    (hroot' : root < next') (h : Ascends next' ids last') :
    KeepsApart (target root next ids) (root :: List.range' next ids.length) := by
  have hself : target root next ids root = root := if_pos rfl
  -- The root stays what it is, and everything else is sent behind it, in order.
  have hnever {n : Nat} (hn : n ∈ List.range' next ids.length) : target root next ids n ≠ root := by
    obtain ⟨hlt, heq⟩ := target_of_mem hroot hn
    have hrange := h.range _ (List.getElem_mem hlt)
    omega
  have hdistinct : ids.Nodup := h.ordered.imp Nat.ne_of_lt
  intro m hm n hn heq
  rcases List.mem_cons.mp hm with hm | hm <;> rcases List.mem_cons.mp hn with hn | hn
  · rw [hm, hn]
  · rw [hm, hself] at heq
    exact absurd heq.symm (hnever hn)
  · rw [hn, hself] at heq
    exact absurd heq (hnever hm)
  · obtain ⟨hltm, hsentm⟩ := target_of_mem hroot hm
    obtain ⟨hltn, hsentn⟩ := target_of_mem hroot hn
    have hindex := (List.getElem_inj hdistinct).mp (hsentm.symm.trans (heq.trans hsentn))
    have hmrange := List.mem_range'_1.mp hm
    have hnrange := List.mem_range'_1.mp hn
    omega

/-- Numbers from `next` on can be sent to given identities by a function that keeps all numbers
apart and does not move an older one. -/
theorem exists_sends {root next next' last' : Nat} {ids : List Nat} (hroot : root < next)
    (hroot' : root < next') (h : Ascends next' ids last') :
    ∃ g : Nat → Nat, Function.Injective g ∧ g root = root ∧ Sends g next ids := by
  refine ⟨_, Renaming.spread_injective (keepsApart_target hroot hroot' h), ?_, ?_⟩
  · rw [Renaming.spread, if_pos List.mem_cons_self, target, if_pos rfl]
  · refine List.ext_getElem (by simp) fun i hi hi' => ?_
    have hmem : next + i ∈ List.range' next ids.length := by
      rw [List.mem_range'_1]
      omega
    obtain ⟨_, heq⟩ := target_of_mem hroot hmem
    rw [List.getElem_map, List.getElem_range'_1, Renaming.spread,
      if_pos (List.mem_cons_of_mem _ hmem), heq]
    simp

/-- The results of parallel plans become the same under a renaming that keeps all identities
apart, and that does not move an identity that is older than the plans. -/
theorem ParallelOutcome.exists_same {α α' : Type} {same : (Nat → Nat) → α → α' → Prop}
    {root next next' last last' : Nat} {a : α} {a' : α'} (hroot : root < next)
    (hroot' : root < next')
    (h : ParallelOutcome (fun g => g root = root) same next next' (.ok (a, last))
      (.ok (a', last'))) :
    ∃ g : Nat → Nat, Function.Injective g ∧ same g a a' := by
  cases h with
  | ok ids hascends hsame =>
    obtain ⟨g, hinjective, hfixed, hsends⟩ := exists_sends hroot hroot' hascends
    exact ⟨g, hinjective, hsame g hfixed hsends⟩

end Plan

/-- Keeping all identities apart separates any handles. -/
theorem Renaming.separates_both {g : Nat → Nat} (hg : Function.Injective g)
    (handles : List Handle) : (Renaming.both g).Separates handles := by
  constructor
  · intro v hv w hw h
    exact hg h
  · intro p hp q hq h
    exact hg h

/-- A predicate is printed alike after identities are exchanged one to one. -/
theorem Predicate.build_renamed {g : Nat → Nat} (hg : Function.Injective g) (p : Predicate)
    (options : RenderOptions) : (p.rename (.both g)).build options = p.build options := by
  have hseparates := Renaming.separates_both hg p.mentions
  rw [← p.relabel_eq_rename hseparates.extends]
  exact p.build_relabel hseparates.respects options

/-- A statement is printed alike after identities are exchanged one to one. -/
theorem Statement.build_renamed {g : Nat → Nat} (hg : Function.Injective g) (s : Statement)
    (options : RenderOptions) : (s.rename (.both g)).build options = s.build options := by
  have hseparates := Renaming.separates_both hg s.mentions
  rw [← s.relabel_eq_rename hseparates.extends]
  exact s.build_relabel hseparates.respects options

end GraphRead
