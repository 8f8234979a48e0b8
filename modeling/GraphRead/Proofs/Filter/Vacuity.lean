import GraphRead.Proofs.Filter.Padding

/-!
# Filters without a condition

A filter may be written without any condition in it: an empty object, a list of such
filters, or a filter on aggregates that has no test. Whether a value is such a filter
can be seen from its keys. This file proves that exactly these filters are compiled to
no predicate. A filter on related nodes is never one of them, since it asks for the
related nodes even if it asks nothing of them.
-/

namespace GraphRead

/-- Whether a filter under a key asks for nothing beyond what the filter inside it asks for. -/
def Place.passesOn : Place → Place → Bool
  | .element _, .aggregate _ | .aggregate _, .side _ | .connection _, .element _ => true
  | _, _ => false

/-- Whether what stands under a key has no condition, given whether the filter there has none. -/
def Slot.isVacuous (place : Place) (nested : Place → Bool) : Slot → Bool
  | .nested inner => place.passesOn inner && nested inner
  | .scalar _ | .comparison | .unknown => false

mutual
/-- Whether a value is a filter without a condition. -/
def Json.isVacuous (schema : Schema) : Json → Place → Bool
  | .object pairs, place => Json.entriesVacuous schema pairs place
  | _, _ => false
termination_by structural value => value

/-- Whether a value is a list of filters without a condition. -/
def Json.isVacuousList (schema : Schema) : Json → Place → Bool
  | .array items, place => Json.itemsVacuous schema items place
  | _, _ => false
termination_by structural value => value

/-- Whether all members of a list are filters without a condition. -/
def Json.itemsVacuous (schema : Schema) : List Json → Place → Bool
  | [], _ => true
  | item :: rest, place => item.isVacuous schema place && Json.itemsVacuous schema rest place
termination_by structural items => items

/-- Whether all entries of an object are without a condition. -/
def Json.entriesVacuous (schema : Schema) : List (String × Json) → Place → Bool
  | [], _ => true
  | (key, value) :: rest, place =>
    (if (Junction.ofKey? key).isSome then value.isVacuousList schema place
      else (place.keySlot schema key).isVacuous place fun inner => value.isVacuous schema inner) &&
      Json.entriesVacuous schema rest place
termination_by structural pairs => pairs
end

/-- Whether a part of a filter is silent does not depend on what it is compiled on. -/
def Mute {β ε α : Type} (compile : ε → β → Fresh α) (silent : α → Bool) (b : β) (mute : Bool) :
    Prop :=
  ∀ env next, silent ((compile env b).run next).1 = mute

section Joining

variable {β ε α : Type} {compile : ε → β → Fresh α} {silent : α → Bool}

/-- Parts that are compiled one after another are silent or not as each of them is. -/
theorem Mute.mapM {parts : List β} {mutes : List Bool}
    (h : List.Forall₂ (Mute compile silent) parts mutes) (env : ε) (next : Nat) :
    ((parts.mapM (compile env)).run next).1.map silent = mutes := by
  induction h generalizing next with
  | nil => rfl
  | cons hpart _ ih =>
    rw [List.mapM_cons]
    exact congrArg₂ List.cons (hpart env next) (ih _)

/-- A junction is silent if all of its parts are. -/
theorem Junctive.mute_join {join : Junction → List β → β} {close : Junction → List α → α}
    (h : Junctive join compile close)
    (hclose : ∀ junction results, silent (close junction results) = results.all silent)
    (junction : Junction) {parts : List β} {mutes : List Bool}
    (hparts : List.Forall₂ (Mute compile silent) parts mutes) :
    Mute compile silent (join junction parts) (mutes.all id) := by
  intro env next
  rw [h.joined, ← Mute.mapM hparts env next, List.all_map]
  exact hclose junction _

end Joining

/-- A combination of predicates is there exactly if one of them is. -/
theorem Predicate.isNone_combine (wrap : List Predicate → Predicate)
    (parts : List (Option Predicate)) :
    (combine wrap parts).isNone = parts.all Option.isNone := by
  have hthere : (parts.filterMap id).isEmpty = parts.all Option.isNone := by
    induction parts with
    | nil => rfl
    | cons part rest ih =>
      cases part with
      | none => exact ih
      | some p => rfl
  rw [← hthere, combine]
  rcases parts.filterMap id with _ | ⟨_, _ | _⟩ <;> rfl

/-- Negation does not turn nothing into a demand. -/
theorem Predicate.isNone_negatedIf (negated : Bool) (part : Option Predicate) :
    (if negated then part.map .not else part).isNone = part.isNone := by
  cases negated with
  | false => rfl
  | true => exact Option.isNone_map ..

/-- A junction of predicates is there exactly if one of them is. -/
theorem Junction.isNone_combine (junction : Junction) (parts : List (Option Predicate)) :
    (junction.combine parts).isNone = parts.all Option.isNone := by
  cases junction <;> exact Predicate.isNone_combine _ parts

/-- A junction of aggregate filters has no condition exactly if none of its parts has. -/
theorem AggregateFilter.isNone_close (junction : Junction)
    (parts : List (List Item × Option Predicate)) :
    (AggregateFilter.close junction parts).2.isNone = parts.all fun part => part.2.isNone := by
  rw [AggregateFilter.close, Junction.isNone_combine, List.all_map]
  rfl

namespace FilterReader

section Objects

variable {β ε α : Type} {join : Junction → List β → β} {compile : ε → β → Fresh α}
  {close : Junction → List α → α} {silent : α → Bool} {schema : Schema} {place : Place}
  {member : KeyPath → Json → FilterResult β}
  {entry : KeyPath → String → Json → FilterResult β}

/-- How objects at a place are read: members and entries are silent if their values say so. -/
structure ReadsMute (schema : Schema) (place : Place) (compile : ε → β → Fresh α)
    (silent : α → Bool) (member : KeyPath → Json → FilterResult β)
    (entry : KeyPath → String → Json → FilterResult β) : Prop where
  member : ∀ {path item part}, member path item = .ok part →
    Mute compile silent part (item.isVacuous schema place)
  entry : ∀ {path key value part}, entry path key value = .ok part →
    Mute compile silent part
      ((place.keySlot schema key).isVacuous place fun inner => value.isVacuous schema inner)

/-- Members of a list are silent as their values say, and all of them if the list says so. -/
theorem ReadsMute.members (h : ReadsMute schema place compile silent member entry)
    {items : List Json} {parts : List β}
    (hparts : List.Forall₂ (fun item part => ∃ path, member path item = .ok part) items parts) :
    ∃ mutes, List.Forall₂ (Mute compile silent) parts mutes ∧
      mutes.all id = Json.itemsVacuous schema items place := by
  induction hparts with
  | nil => exact ⟨[], .nil, rfl⟩
  | cons hpart _ ih =>
    obtain ⟨mutes, hmutes, hall⟩ := ih
    obtain ⟨path, hread⟩ := hpart
    refine ⟨_, .cons (h.member hread) hmutes, ?_⟩
    rw [List.all_cons, hall]
    rfl

/-- Entries are silent as their values say, and all of them if the entries say so. -/
theorem ReadsMute.entries (h : ReadsMute schema place compile silent member entry)
    (hjunctive : Junctive join compile close)
    (hclose : ∀ junction results, silent (close junction results) = results.all silent)
    {pairs : List (String × Json)} {parts : List β}
    (hparts : List.Forall₂ (EntryRead join member entry) pairs parts) :
    ∃ mutes, List.Forall₂ (Mute compile silent) parts mutes ∧
      mutes.all id = Json.entriesVacuous schema pairs place := by
  induction hparts with
  | nil => exact ⟨[], .nil, rfl⟩
  | cons hpart _ ih =>
    obtain ⟨mutes, hmutes, hall⟩ := ih
    cases hpart with
    | junction hkey hitems =>
      obtain ⟨inner, hinner, hinnerAll⟩ := h.members hitems
      refine ⟨_, .cons (hjunctive.mute_join hclose _ hinner) hmutes, ?_⟩
      rw [List.all_cons, hall, hinnerAll, Json.entriesVacuous, hkey]
      rfl
    | other hkey hread =>
      refine ⟨_, .cons (h.entry hread) hmutes, ?_⟩
      rw [List.all_cons, hall, Json.entriesVacuous, hkey]
      rfl

/-- An object that is read is silent if its keys say so. -/
theorem ReadsMute.object (h : ReadsMute schema place compile silent member entry)
    (hjunctive : Junctive join compile close)
    (hclose : ∀ junction results, silent (close junction results) = results.all silent)
    {path : KeyPath} {value : Json} {b : β} (hread : object join member entry path value = .ok b) :
    Mute compile silent b (value.isVacuous schema place) := by
  obtain ⟨pairs, parts, rfl, rfl, hparts⟩ := eq_object_of_object hread
  obtain ⟨mutes, hmutes, hall⟩ := h.entries hjunctive hclose hparts
  rw [Json.isVacuous, ← hall]
  exact hjunctive.mute_join hclose .all hmutes

end Objects

variable (schema : Schema) {limit : Nat} {path : KeyPath} {value : Json}

/-- A filter on the aggregates of a side is silent if it has no test. -/
theorem mute_side {s : Side} {element : Element} {budget : Nat} {f : AggregateFilter}
    (h : side limit s element budget path value = .ok f) :
    Mute AggregateFilter.compile (fun result => result.2.isNone) f
      (value.isVacuous schema (.side element)) := by
  induction budget generalizing path value f with
  | zero => exact nomatch h
  | succ budget ih =>
    refine ReadsMute.object ⟨ih, fun hread => ?_⟩ AggregateFilter.junctive
      AggregateFilter.isNone_close h
    obtain ⟨hkey, aggregate, comparison, -, rfl⟩ := sideEntry_eq_ok hread
    rw [Place.keySlot, if_pos hkey]
    exact fun _ _ => rfl

/-- A filter on aggregates is silent if it has no test on either side. -/
theorem mute_aggregate {link : Link} {budget : Nat} {f : AggregateFilter}
    (h : aggregate limit link budget path value = .ok f) :
    Mute AggregateFilter.compile (fun result => result.2.isNone) f
      (value.isVacuous schema (.aggregate link)) := by
  induction budget generalizing path value f with
  | zero => exact nomatch h
  | succ budget ih =>
    refine ReadsMute.object ⟨ih, fun hread => ?_⟩ AggregateFilter.junctive
      AggregateFilter.isNone_close h
    rcases aggregateEntry_eq_ok hread with ⟨s, hkey, hread⟩ | ⟨hkey, comparison, hcount, rfl⟩
    · rw [Place.keySlot, hkey]
      exact mute_side schema hread
    · rw [Place.keySlot, hkey, hcount]
      exact fun _ _ => rfl

/-- What a key of a filter on an element is read to is silent only if the key is about aggregates
that are not tested. -/
theorem mute_reads {filter : Element → KeyPath → Json → FilterResult Filter}
    {connection : Link → KeyPath → Json → FilterResult ConnectionFilter} {budget : Nat}
    {meaning : KeyMeaning} {f : Filter} {element : Element}
    (h : Reads filter connection (fun link => aggregate limit link budget) path value meaning f) :
    Mute Filter.predicate Option.isNone f
      (meaning.slot.isVacuous (.element element) fun inner => value.isVacuous schema inner) := by
  cases h with
  | scalar property operator => exact fun _ _ => rfl
  | @related link quantifier inner hinner => cases inner <;> exact fun _ _ => rfl
  | @connected link quantifier inner hinner => cases inner <;> exact fun _ _ => rfl
  | @aggregated link inner hinner =>
    intro target next
    have hinner := mute_aggregate schema hinner (.node next link.target.labels,
      .relationship (next + 1) link.relationship.type) (next + 2)
    rw [Filter.predicate]
    exact (Option.isNone_map ..).trans hinner

/-- Filters on elements and on connections are silent if their keys say so. -/
theorem mute_filter_and_connection (limit budget : Nat) :
    (∀ {element path value f}, filter schema limit budget element path value = .ok f →
      Mute Filter.predicate Option.isNone f (value.isVacuous schema (.element element))) ∧
    ∀ {link path value f}, connection schema limit budget link path value = .ok f →
      Mute ConnectionFilter.compile Option.isNone f
        (value.isVacuous schema (.connection link)) := by
  induction budget with
  | zero => exact ⟨(nomatch ·), (nomatch ·)⟩
  | succ budget ih =>
    refine ⟨fun {element path value f} h => ?_, fun {link path value f} h => ?_⟩
    · refine ReadsMute.object ⟨ih.1, fun hread => ?_⟩ Filter.junctive Junction.isNone_combine h
      obtain ⟨meaning, hmeaning, hreads⟩ := reads_of_entry hread
      rw [Place.keySlot, hmeaning]
      exact mute_reads schema hreads
    · refine ReadsMute.object ⟨ih.2, fun hread => ?_⟩ ConnectionFilter.junctive
        Junction.isNone_combine h
      obtain ⟨s, negated, inner, hkey, hinner, rfl⟩ := eq_ofSide_of_connectionEntry hread
      -- The filter on one side is compiled on one of the two variables of a connection.
      have hmute := ih.1 hinner
      rw [Place.keySlot, hkey]
      intro pair next
      cases s with
      | node => exact (Predicate.isNone_negatedIf negated _).trans (hmute pair.1 next)
      | edge => exact (Predicate.isNone_negatedIf negated _).trans (hmute pair.2 next)

end FilterReader

end GraphRead
