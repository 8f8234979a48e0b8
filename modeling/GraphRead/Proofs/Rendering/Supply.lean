import GraphRead.Cypher.Names
import GraphRead.Settings
import Mathlib.Data.List.Perm.Subperm
import Mathlib.Data.List.Nodup

/-!
# The supply of names is fresh

The search for the next name of a stem is bounded by the number of issued names.
This file proves that the bound suffices: the names of a stem are all different,
so they cannot all have been issued. It also proves that stems which do not end
in a digit never collide, so that their names are numbered without gaps.
-/

namespace GraphRead.Names

/-- The decimal digits of a number determine it. -/
theorem toString_injective {a b : Nat} (h : toString a = toString b) : a = b := by
  have hdigits : Nat.toDigits 10 a = Nat.toDigits 10 b := by
    have := congrArg String.toList h
    simpa only [Nat.toString_eq_repr, Nat.toList_repr] using this
  rw [← Nat.ofDigitChars_ten_toDigits (n := a), hdigits, Nat.ofDigitChars_ten_toDigits]

/-- The names of a stem are all different. -/
theorem numbered_injective (stem : String) : Function.Injective (numbered stem) := by
  intro a b h
  exact toString_injective ((String.append_right_inj stem).mp h)

/-- A search that ends on an issued name has passed only issued names. -/
theorem issued_of_firstFree {issued : List String} {stem : String} {steps start : Nat}
    (h : numbered stem (firstFree issued stem steps start) ∈ issued) :
    ∀ i ≤ steps, numbered stem (start + i) ∈ issued := by
  induction steps generalizing start with
  | zero =>
    intro i hi
    obtain rfl : i = 0 := by omega
    exact h
  | succ steps ih =>
    unfold firstFree at h
    split at h
    · intro i hi
      cases i with
      | zero => assumption
      | succ i =>
        have := ih h i (by omega)
        rwa [Nat.add_assoc, Nat.add_comm 1 i] at this
    · contradiction

/-- The next name of a stem was not issued before. -/
theorem next_fresh (names : Names) (stem : String) :
    numbered stem (names.next stem) ∉ names.issued := by
  intro hissued
  -- If the search ended at an issued name, more names of the stem would have been issued than there
  -- are.
  have hall := issued_of_firstFree hissued
  have hnodup : ((List.range (names.issued.length + 1)).map fun i =>
      numbered stem (names.counter stem + i)).Nodup := by
    refine List.Nodup.map (fun i j hij => ?_) List.nodup_range
    have := numbered_injective stem hij
    omega
  have hsubset : ((List.range (names.issued.length + 1)).map fun i =>
      numbered stem (names.counter stem + i)) ⊆ names.issued := by
    intro name hname
    obtain ⟨i, hi, rfl⟩ := List.mem_map.mp hname
    exact hall i (by have := List.mem_range.mp hi; omega)
  have hlength := (List.subperm_of_subset hnodup hsubset).length_le
  simp only [List.length_map, List.length_range] at hlength
  omega

/-- A name is issued when it is allocated, in front of the others. -/
@[simp]
theorem allocate_issued (names : Names) (stem : String) :
    (names.allocate stem).2.issued = (names.allocate stem).1 :: names.issued := rfl

/-- An allocated name was not issued before. -/
theorem allocate_fresh (names : Names) (stem : String) :
    (names.allocate stem).1 ∉ names.issued := next_fresh names stem

/-- A number is written in digits. -/
theorem isDigit_of_mem_toString {number : Nat} {c : Char} (h : c ∈ (toString number).toList) :
    c.isDigit = true := by
  rw [Nat.toString_eq_repr, Nat.toList_repr] at h
  exact Nat.isDigit_of_mem_toDigits (by decide) (by decide) h

/-- A numbered name ends in a digit. -/
theorem endsInDigit_numbered (stem : String) (number : Nat) :
    Settings.endsInDigit (numbered stem number) = true := by
  have hne : (toString number).toList ≠ [] := by
    rw [Nat.toString_eq_repr, Nat.toList_repr]
    exact Nat.toDigits_ne_nil
  have hlast : (numbered stem number).toList.getLast? =
      some ((toString number).toList.getLast hne) := by
    rw [numbered, String.toList_append, List.getLast?_append_of_ne_nil _ hne,
      List.getLast?_eq_getLast_of_ne_nil hne]
  rw [Settings.endsInDigit, hlast]
  exact isDigit_of_mem_toString (List.getLast_mem hne)

/-- A stem that does not end in a digit is what remains of its names without the digits at the
end. -/
theorem dropWhile_numbered {stem : String} (hstem : Settings.endsInDigit stem = false)
    (number : Nat) :
    (numbered stem number).toList.reverse.dropWhile Char.isDigit = stem.toList.reverse := by
  have hdigits : ∀ c ∈ (toString number).toList.reverse, c.isDigit = true :=
    fun c hc => isDigit_of_mem_toString (List.mem_reverse.mp hc)
  rw [numbered, String.toList_append, List.reverse_append, List.dropWhile_append_of_pos hdigits]
  unfold Settings.endsInDigit at hstem
  rw [← List.head?_reverse] at hstem
  cases hreverse : stem.toList.reverse with
  | nil => rfl
  | cons c rest =>
    simp only [hreverse, List.head?_cons] at hstem
    rw [List.dropWhile_cons_of_neg (by simp [hstem])]

/-- Names of stems that do not end in a digit determine the stem and the number. -/
theorem numbered_inj {stem stem' : String} (hstem : Settings.endsInDigit stem = false)
    (hstem' : Settings.endsInDigit stem' = false) {a b : Nat}
    (h : numbered stem a = numbered stem' b) : stem = stem' ∧ a = b := by
  have heq : stem = stem' := by
    have hdrop := dropWhile_numbered hstem a
    rw [h, dropWhile_numbered hstem' b] at hdrop
    exact String.toList_injective (List.reverse_injective hdrop.symm)
  subst heq
  exact ⟨rfl, numbered_injective stem h⟩

/-- All issued names are of stems that do not end in a digit, with numbers below their counters. -/
def Dense (names : Names) : Prop :=
  ∀ name ∈ names.issued, ∃ stem number, Settings.endsInDigit stem = false ∧
    number < names.counter stem ∧ name = numbered stem number

/-- Nothing has been issued at first. -/
theorem dense_empty : empty.Dense := by simp [Dense, empty]

/-- The counter of a stem goes up when a name of it is allocated. -/
theorem counter_allocate (names : Names) (stem other : String) :
    (names.allocate stem).2.counter other =
      if other = stem then names.next stem + 1 else names.counter other := by
  by_cases heq : other = stem
  · simp [allocate, counter, heq]
  · simp [allocate, counter, heq, List.lookup_cons, beq_eq_false_iff_ne.mpr heq]

/-- A stem that does not end in a digit is numbered without gaps. -/
theorem Dense.next_eq_counter {names : Names} (h : names.Dense) {stem : String}
    (hstem : Settings.endsInDigit stem = false) : names.next stem = names.counter stem := by
  have hfree : numbered stem (names.counter stem) ∉ names.issued := by
    intro hissued
    obtain ⟨stem', number, hstem', hlt, heq⟩ := h _ hissued
    obtain ⟨rfl, rfl⟩ := numbered_inj hstem hstem' heq
    omega
  unfold next
  cases names.issued.length with
  | zero => rfl
  | succ steps => rw [firstFree, if_neg hfree]

/-- Allocating from a stem that does not end in a digit keeps the supply dense. -/
theorem Dense.allocate {names : Names} (h : names.Dense) {stem : String}
    (hstem : Settings.endsInDigit stem = false) : (names.allocate stem).2.Dense := by
  intro name hname
  rw [allocate_issued] at hname
  rcases List.mem_cons.mp hname with rfl | hname
  · exact ⟨stem, names.next stem, hstem, by simp [counter_allocate], rfl⟩
  · obtain ⟨stem', number, hstem', hlt, rfl⟩ := h name hname
    refine ⟨stem', number, hstem', ?_, rfl⟩
    rw [counter_allocate]
    split
    next heq =>
      rw [h.next_eq_counter hstem, ← heq]
      omega
    next => exact hlt

end GraphRead.Names
