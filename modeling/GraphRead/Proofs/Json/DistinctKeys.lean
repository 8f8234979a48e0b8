import GraphRead.Json.Basic
import Mathlib.Data.List.Nodup

/-!
# Objects without repeated keys

Where a free-form value is read, the repeated keys of its objects are merged: a key
keeps its first position and takes its last value. This file proves that no key is
repeated afterwards, at any depth, and that a value without repeated keys is left as
it is, with its entries in their order. It also relates the depth of a value to that
of the values in it.
-/

namespace GraphRead.Json

/-- A value in which no object repeats a key. -/
inductive KeysDistinct : Json → Prop where
  | null : KeysDistinct .null
  | bool (value : Bool) : KeysDistinct (.bool value)
  | number (value : Number) : KeysDistinct (.number value)
  | string (value : String) : KeysDistinct (.string value)
  | array {items : List Json} (h : ∀ item ∈ items, KeysDistinct item) : KeysDistinct (.array items)
  | object {entries : List (String × Json)} (hkeys : (entries.map Prod.fst).Nodup)
      (h : ∀ entry ∈ entries, KeysDistinct entry.2) : KeysDistinct (.object entries)

/-! ### Merging -/

section Entries

variable {entries rest : List (String × Json)} {key : String} {value : Json}

/-- An entry under a new key is put at the end. -/
theorem insertEntry_of_not_mem (h : key ∉ entries.map Prod.fst) :
    insertEntry entries key value = entries ++ [(key, value)] := by
  have hnone : entries.any (fun entry => entry.1 = key) = false := by
    rw [List.any_eq_false]
    intro entry hentry hkey
    exact h (List.mem_map.mpr ⟨entry, hentry, of_decide_eq_true hkey⟩)
  rw [insertEntry, hnone]
  rfl

/-- An entry under a key that is there replaces the value and keeps the position. -/
theorem insertEntry_of_mem (h : key ∈ entries.map Prod.fst) :
    insertEntry entries key value =
      entries.map fun entry => if entry.1 = key then (key, value) else entry := by
  obtain ⟨entry, hentry, hkey⟩ := List.mem_map.mp h
  exact if_pos (List.any_eq_true.mpr ⟨entry, hentry, decide_eq_true hkey⟩)

/-- Setting a key repeats none. -/
theorem nodup_insertEntry (h : (entries.map Prod.fst).Nodup) :
    ((insertEntry entries key value).map Prod.fst).Nodup := by
  by_cases hmem : key ∈ entries.map Prod.fst
  · have hkeys : (insertEntry entries key value).map Prod.fst = entries.map Prod.fst := by
      rw [insertEntry_of_mem hmem, List.map_map]
      refine List.map_congr_left fun entry _ => ?_
      rw [Function.comp_apply]
      split
      next heq => exact heq.symm
      next => rfl
    rwa [hkeys]
  · rw [insertEntry_of_not_mem hmem, List.map_append]
    exact List.Nodup.append h (List.nodup_singleton _) (by simpa using hmem)

/-- What holds for all values holds after inserting one for which it holds. -/
theorem forall_insertEntry {P : Json → Prop} (h : ∀ entry ∈ entries, P entry.2) (hvalue : P value) :
    ∀ entry ∈ insertEntry entries key value, P entry.2 := by
  intro entry hentry
  by_cases hmem : key ∈ entries.map Prod.fst
  · rw [insertEntry_of_mem hmem] at hentry
    obtain ⟨old, hold, rfl⟩ := List.mem_map.mp hentry
    split
    · exact hvalue
    · exact h old hold
  · rw [insertEntry_of_not_mem hmem] at hentry
    rcases List.mem_append.mp hentry with hold | hnew
    · exact h entry hold
    · obtain rfl := List.mem_singleton.mp hnew
      exact hvalue

end Entries

mutual
/-- A merged value repeats no key. -/
theorem keysDistinct_merged (value : Json) : value.merged.KeysDistinct := by
  cases value with
  | null => exact .null
  | bool value => exact .bool value
  | number value => exact .number value
  | string value => exact .string value
  | array items => exact .array (keysDistinct_mergedItems items)
  | object entries =>
    obtain ⟨hkeys, hvalues⟩ :=
      keysDistinct_mergedEntries entries [] .nil (List.forall_mem_nil _)
    exact .object hkeys hvalues
termination_by structural value

/-- Merged members of a list have distinct keys. -/
theorem keysDistinct_mergedItems (items : List Json) :
    ∀ item ∈ mergedItems items,
      item.KeysDistinct := by
  cases items with
  | nil => exact List.forall_mem_nil _
  | cons item items =>
    rw [mergedItems, List.forall_mem_cons]
    exact ⟨keysDistinct_merged item, keysDistinct_mergedItems items⟩
termination_by structural items

/-- Merging entries into those that are done keeps the keys distinct, on this level and below. -/
theorem keysDistinct_mergedEntries (rest done : List (String × Json))
    (hkeys : (done.map Prod.fst).Nodup) (hdone : ∀ entry ∈ done, entry.2.KeysDistinct) :
    ((mergedEntries done rest).map Prod.fst).Nodup ∧
        ∀ entry ∈ mergedEntries done rest, entry.2.KeysDistinct := by
  match rest with
  | [] => exact ⟨hkeys, hdone⟩
  | (_, value) :: rest =>
    refine keysDistinct_mergedEntries rest _ (nodup_insertEntry hkeys) ?_
    exact forall_insertEntry hdone (keysDistinct_merged value)
termination_by structural rest
end

/-- A list is not changed by merging, if its members are not. -/
theorem mergedItems_eq_self {items : List Json} (h : ∀ item ∈ items, item.merged = item) :
    mergedItems items = items := by
  induction items with
  | nil => rfl
  | cons item items ih =>
    rw [List.forall_mem_cons] at h
    rw [mergedItems, h.1, ih h.2]

/-- Entries with new keys are put behind those already read. -/
theorem mergedEntries_eq_append {done rest : List (String × Json)}
    (hkeys : ((done ++ rest).map Prod.fst).Nodup) (h : ∀ entry ∈ rest, entry.2.merged = entry.2) :
    mergedEntries done rest = done ++ rest := by
  -- What has been read grows at its end, and the keys stay distinct across the seam.
  induction rest generalizing done with
  | nil => rw [mergedEntries, List.append_nil]
  | cons entry rest ih =>
    obtain ⟨key, value⟩ := entry
    rw [List.forall_mem_cons] at h
    have hnew : key ∉ done.map Prod.fst := by
      rw [List.map_append, List.map_cons] at hkeys
      exact fun hmem => (List.nodup_append.mp hkeys).2.2 key hmem key List.mem_cons_self rfl
    rw [mergedEntries, h.1, insertEntry_of_not_mem hnew, List.append_cons done (key, value) rest]
    rw [List.append_cons] at hkeys
    exact ih hkeys h.2

/-- A value that repeats no key is left as it is. -/
theorem KeysDistinct.merged_eq {value : Json} (h : value.KeysDistinct) : value.merged = value := by
  induction h with
  | null => rfl
  | bool => rfl
  | number => rfl
  | string => rfl
  | array _ ih => rw [merged, mergedItems_eq_self ih]
  | @object entries hkeys _ ih =>
    have hnew : (([] ++ entries).map Prod.fst).Nodup := hkeys
    rw [merged, mergedEntries_eq_append hnew ih, List.nil_append]

/-- Merging does not make a value null. -/
theorem merged_eq_null {value : Json} (h : value.merged = .null) : value = .null := by
  cases value with
  | null => rfl
  | _ => cases h

/-! ### Depth -/

/-- A member is at most as deep as the list of its members. -/
theorem depth_le_of_mem_items {item : Json} {items : List Json} (h : item ∈ items) :
    item.depth ≤ depthItems items := by
  induction items with
  | nil => cases h
  | cons first items ih =>
    rw [depthItems]
    rcases List.mem_cons.mp h with rfl | h
    · exact Nat.le_max_left _ _
    · exact Nat.le_trans (ih h) (Nat.le_max_right _ _)

/-- A value is at most as deep as the entries it is one of. -/
theorem depth_le_of_mem_entries {entry : String × Json} {entries : List (String × Json)}
    (h : entry ∈ entries) : entry.2.depth ≤ depthEntries entries := by
  induction entries with
  | nil => cases h
  | cons first entries ih =>
    rw [depthEntries]
    rcases List.mem_cons.mp h with rfl | h
    · exact Nat.le_max_left _ _
    · exact Nat.le_trans (ih h) (Nat.le_max_right _ _)

/-- The items of an array are less deep than it. -/
theorem depth_lt_array {item : Json} {items : List Json} (h : item ∈ items) :
    item.depth < (Json.array items).depth := by
  rw [depth]
  exact Nat.lt_succ_of_le (depth_le_of_mem_items h)

/-- The values of an object are less deep than it. -/
theorem depth_lt_object {entry : String × Json} {entries : List (String × Json)}
    (h : entry ∈ entries) : entry.2.depth < (Json.object entries).depth := by
  rw [depth]
  exact Nat.lt_succ_of_le (depth_le_of_mem_entries h)

/-- The items of an array in an object are less deep than the object. -/
theorem depth_lt_listed {key : String} {item : Json} {items : List Json}
    {entries : List (String × Json)} (hentry : (key, .array items) ∈ entries)
    (hitem : item ∈ items) : item.depth < (Json.object entries).depth :=
  Nat.lt_trans (depth_lt_array hitem) (depth_lt_object hentry)

end GraphRead.Json
