/-!
# Supply of names

Names are generated as a stem followed by a number. Every stem has a counter,
and a name that was issued before, perhaps for another stem, is skipped.
-/

namespace GraphRead

/-- The names issued so far and the counter of every stem. -/
structure Names where
  counters : List (String × Nat)
  issued : List String

namespace Names

/-- No name has been issued. -/
def empty : Names := ⟨[], []⟩

/-- The number from which the search for the next name of a stem starts. -/
def counter (names : Names) (stem : String) : Nat := (names.counters.lookup stem).getD 0

/-- The name of a stem with a number. -/
def numbered (stem : String) (number : Nat) : String := stem ++ toString number

/-- The stem of the names below an issued one. -/
def stemBelow (name : String) : String := name ++ "_"

/-- The first number from `start` on whose name was not issued. As many steps as there are issued
names always suffice, since the names of a stem are all different. -/
def firstFree (issued : List String) (stem : String) : (steps start : Nat) → Nat
  | 0, start => start
  | steps + 1, start =>
    if numbered stem start ∈ issued then firstFree issued stem steps (start + 1) else start

/-- The number of the next name of a stem. -/
def next (names : Names) (stem : String) : Nat :=
  firstFree names.issued stem names.issued.length (names.counter stem)

/-- Issues the next name of a stem. -/
def allocate (names : Names) (stem : String) : String × Names :=
  let number := names.next stem
  let name := numbered stem number
  (name, ⟨(stem, number + 1) :: names.counters, name :: names.issued⟩)

end Names

end GraphRead
