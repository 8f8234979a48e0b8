import GraphRead.Proofs.Rendering.Step
import GraphRead.Proofs.Rendering.Supply
import Mathlib.Data.Finset.Card
import Mathlib.Order.Bounds.Basic

/-!
# The search for a free name

A name is looked for by trying the numbers from the counter of its stem on, for as
long as the name with that number has been issued. This file describes the search as
a loop without a bound and proves that it ends at the least number that is free, after
at most one turn more than there are issued names: the numbers that it passes belong
to different names, and all of these were issued. So the bound that the supply sets to
its search never cuts it short, whatever has been issued and whatever the stem is.
-/

namespace GraphRead.Names

/-- The search for a free name as a loop. From a counter it takes some turns and ends at a
number. -/
inductive Search (issued : List String) (stem : String) : (counter turns number : Nat) → Prop where
  /-- The name is free, and the loop ends. -/
  | free {counter : Nat} (hfree : numbered stem counter ∉ issued) :
      Search issued stem counter 1 counter
  /-- The name was issued before, and the next number is tried. -/
  | taken {counter turns number : Nat} (htaken : numbered stem counter ∈ issued)
      (hrest : Search issued stem (counter + 1) turns number) :
      Search issued stem counter (turns + 1) number

/-- The number is the least one from the counter on whose name was not issued. -/
def LeastFree (issued : List String) (stem : String) (counter number : Nat) : Prop :=
  IsLeast {n | counter ≤ n ∧ numbered stem n ∉ issued} number

section Loop

variable {issued : List String} {stem : String} {counter turns number : Nat}

/-- The least free number, in terms of the numbers that are passed. -/
theorem leastFree_iff : LeastFree issued stem counter number ↔
    counter ≤ number ∧ numbered stem number ∉ issued ∧
      ∀ n, counter ≤ n → n < number → numbered stem n ∈ issued := by
  constructor
  · rintro ⟨⟨hle, hfree⟩, hleast⟩
    refine ⟨hle, hfree, fun n hn hlt => ?_⟩
    by_contra hissued
    have := hleast ⟨hn, hissued⟩
    omega
  · rintro ⟨hle, hfree, hpassed⟩
    refine ⟨⟨hle, hfree⟩, fun n hn => ?_⟩
    by_contra hlt
    exact hn.2 (hpassed n hn.1 (by omega))

/-- The loop ends at the least free number, after a turn for each number up to it. -/
theorem Search.ends (h : Search issued stem counter turns number) :
    LeastFree issued stem counter number ∧ counter + turns = number + 1 := by
  rw [leastFree_iff]
  induction h with
  | free hfree => exact ⟨⟨Nat.le_refl _, hfree, fun n _ _ => by omega⟩, rfl⟩
  | @taken counter turns number htaken _ ih =>
    obtain ⟨⟨hle, hfree, hpassed⟩, hturns⟩ := ih
    refine ⟨⟨by omega, hfree, fun n hn hlt => ?_⟩, by omega⟩
    rcases Nat.eq_or_lt_of_le hn with rfl | hn
    · exact htaken
    · exact hpassed n hn hlt

/-- The loop reaches the least free number. -/
theorem search_of_leastFree (h : LeastFree issued stem counter number) :
    Search issued stem counter (number - counter + 1) number := by
  obtain ⟨hle, hfree, hpassed⟩ := leastFree_iff.mp h
  clear h
  -- The loop moves the counter towards the number, which stays the least free one.
  induction hdistance : number - counter generalizing counter with
  | zero =>
    obtain rfl : counter = number := by omega
    exact .free hfree
  | succ distance ih =>
    refine .taken (hpassed counter (Nat.le_refl _) (by omega)) (ih (by omega) ?_ (by omega))
    exact fun n hn hlt => hpassed n (by omega) hlt

/-- The numbers before the least free one belong to different names, all of which were issued. -/
theorem LeastFree.distance_le (h : LeastFree issued stem counter number) :
    number - counter ≤ issued.toFinset.card := by
  obtain ⟨-, -, hpassed⟩ := leastFree_iff.mp h
  have hcard := Finset.card_le_card_of_injOn (s := Finset.range (number - counter))
    (t := issued.toFinset) (fun i => numbered stem (counter + i)) ?_ ?_
  · simpa using hcard
  · intro i hi
    have hi := Finset.mem_range.mp hi
    exact List.mem_toFinset.mpr (hpassed (counter + i) (by omega) (by omega))
  · intro i _ j _ hij
    have := numbered_injective stem hij
    omega

/-- The bounded search passes only names that were issued. -/
theorem firstFree_passes (issued : List String) (stem : String) (steps start : Nat) :
    start ≤ firstFree issued stem steps start ∧
      ∀ n, start ≤ n → n < firstFree issued stem steps start → numbered stem n ∈ issued := by
  induction steps generalizing start with
  | zero => exact ⟨Nat.le_refl _, fun n hn hlt => absurd hlt (by rw [firstFree]; omega)⟩
  | succ steps ih =>
    rw [firstFree]
    split
    next htaken =>
      obtain ⟨hle, hpassed⟩ := ih (start + 1)
      refine ⟨by omega, fun n hn hlt => ?_⟩
      rcases Nat.eq_or_lt_of_le hn with rfl | hn
      · exact htaken
      · exact hpassed n hn hlt
    next => exact ⟨Nat.le_refl _, fun n hn hlt => by omega⟩

end Loop

/-- The number of the next name is the least free one. -/
theorem leastFree_next (names : Names) (stem : String) :
    LeastFree names.issued stem (names.counter stem) (names.next stem) := by
  obtain ⟨hle, hbelow⟩ :=
    firstFree_passes names.issued stem names.issued.length (names.counter stem)
  exact leastFree_iff.mpr ⟨hle, next_fresh names stem, hbelow⟩

/-- The loop ends at the number of the next name and nowhere else. -/
theorem search_iff (names : Names) (stem : String) (turns number : Nat) :
    Search names.issued stem (names.counter stem) turns number ↔
      turns = names.next stem - names.counter stem + 1 ∧ number = names.next stem := by
  have hnext := leastFree_next names stem
  constructor
  · intro hsearch
    obtain ⟨hends, hturns⟩ := hsearch.ends
    have hle := (leastFree_iff.mp hnext).1
    obtain rfl : number = names.next stem := IsLeast.unique hends hnext
    exact ⟨by omega, rfl⟩
  · rintro ⟨rfl, rfl⟩
    exact search_of_leastFree hnext

end GraphRead.Names

namespace GraphRead.Context

/-- In every state of rendering and for every base, the search for a new name ends, and it takes at
most one turn more than there are issued names. The name is made from the stem of the scope, the
base and the least number from the counter on whose name was not issued; this number is the only one
at which the search can end. The counter then stands behind it, the name has been issued besides
those before, and nothing else has changed. -/
theorem allocate_takes_least (context : Context) (base : String) :
    ∃ number turns names,
      (allocate base).run context =
        (context.scope.stem ++ base ++ toString number, { context with names }) ∧
      (∀ turns' number', Names.Search context.names.issued (context.scope.stem ++ base)
          (context.names.counter (context.scope.stem ++ base)) turns' number' ↔
        turns' = turns ∧ number' = number) ∧
      turns ≤ context.names.issued.toFinset.card + 1 ∧
      IsLeast {n | context.names.counter (context.scope.stem ++ base) ≤ n ∧
        context.scope.stem ++ base ++ toString n ∉ context.names.issued} number ∧
      (∀ stem, names.counter stem =
        if stem = context.scope.stem ++ base then number + 1 else context.names.counter stem) ∧
      names.issued = (context.scope.stem ++ base ++ toString number) :: context.names.issued := by
  have hleast := Names.leastFree_next context.names (context.scope.stem ++ base)
  exact ⟨context.names.next (context.scope.stem ++ base), _, _, run_allocate base context,
    Names.search_iff context.names (context.scope.stem ++ base),
    Nat.succ_le_succ hleast.distance_le, hleast,
    Names.counter_allocate context.names (context.scope.stem ++ base), rfl⟩

end GraphRead.Context
