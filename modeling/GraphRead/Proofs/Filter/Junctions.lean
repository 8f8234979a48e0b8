import GraphRead.Proofs.Filter.Identities
import GraphRead.Proofs.Filter.Padding

/-!
# Laws of junctions

The entries of a filter all have to hold, so that a list of objects with one entry
each says the same. A list with one member says what its member says, whichever
way it is joined, and empty objects say nothing. Each law holds of what a filter is
printed as: which identities are taken does not matter.
-/

namespace GraphRead

/-- What a JSON filter on an element is printed as, if it has a condition. -/
def renderedWhere (schema : Schema) (limit : Nat) (element : Element) (target : Variable)
    (next : Nat) (options : RenderOptions) (value : Json) :
    FilterResult (Option (Except BuildError (Option Query))) := do
  let predicate ← wherePredicate schema limit element target next value
  return predicate.map fun predicate => predicate.build options

/-- Conditions that are the same up to identities are printed alike. -/
theorem SameCondition.map_build {g : Nat → Nat} (hg : Function.Injective g)
    {p p' : Option Predicate} (h : SameCondition g p p') (options : RenderOptions) :
    (p.map fun p => p.build options) = p'.map fun p => p.build options := by
  rw [← h]
  cases p with
  | none => rfl
  | some p => exact congrArg some (p.build_renamed hg options).symm

/-- The print of a filter does not depend on the identities that are taken. -/
theorem Filter.build_predicate (f : Filter) {target : Variable} {next next' : Nat}
    (hnext : target.identity < next) (hnext' : target.identity < next')
    (options : RenderOptions) :
    (((f.predicate target).run next).1.map fun p => p.build options) =
      ((f.predicate target).run next').1.map fun p => p.build options := by
  obtain ⟨g, hg, hsame⟩ := Plan.ParallelOutcome.exists_same hnext hnext'
    (Filter.parallel_predicate (fun _ => sameVariable_self) f next next')
  exact hsame.map_build hg options

/-- Filters that are compiled alike are printed alike. -/
theorem renderedWhere_of_carries {schema : Schema} {limit : Nat} {element : Element}
    {target : Variable} {next next' : Nat} (hnext : target.identity < next)
    (hnext' : target.identity < next') {options : RenderOptions} {value value' : Json}
    (h : FilterReader.Carries Filter.predicate (Filter.read schema limit element .root value')
      (Filter.read schema limit element .root value))
    {result : Option (Except BuildError (Option Query))}
    (hresult : renderedWhere schema limit element target next' options value' = .ok result) :
    renderedWhere schema limit element target next options value = .ok result := by
  obtain ⟨predicate, hpredicate, hresult⟩ := FilterReader.bind_eq_ok hresult
  obtain ⟨f', hread', hpredicate⟩ := FilterReader.bind_eq_ok hpredicate
  obtain rfl := Except.ok.inj hpredicate
  obtain rfl := Except.ok.inj hresult
  obtain ⟨f, hread, hsame⟩ := h f' hread'
  rw [renderedWhere, wherePredicate, hread, ← hsame target,
    ← f.build_predicate hnext hnext' options]
  rfl

namespace FilterReader

section Objects

variable {β ε α : Type} {join : Junction → List β → β} {compile : ε → β → Fresh α}
  {close : Junction → List α → α} {member member' : KeyPath → Json → FilterResult β}
  {entry : KeyPath → String → Json → FilterResult β}

/-- Objects with one entry each are read to what their entries are read to. -/
theorem entries_of_singletons (hjunctive : Junctive join compile close) {path path' : KeyPath}
    (hmember : ∀ value path', Carries compile (member' path' value)
      (object join member entry path value)) :
    ∀ {pairs : List (String × Json)} {index : Nat} {parts' : List β},
      members member' path' index (pairs.map fun pair => .object [pair]) = .ok parts' →
      ∃ parts, entries join member entry path pairs = .ok parts ∧
        PaddedParts join compile parts parts' := by
  intro pairs
  induction pairs with
  | nil =>
    intro index parts' hread
    obtain rfl := Except.ok.inj hread
    exact ⟨[], rfl, .nil⟩
  | cons pair rest ih =>
    intro index parts' hread
    obtain ⟨first', hfirst', hread⟩ := bind_eq_ok hread
    obtain ⟨others', hothers', hread⟩ := bind_eq_ok hread
    obtain rfl := Except.ok.inj hread
    -- An object of one entry is a junction of one part, which is compiled as the part itself.
    obtain ⟨wrapped, hwrapped, hsame⟩ := hmember _ _ first' hfirst'
    obtain ⟨singles, hsingles, hwrapped⟩ := bind_eq_ok hwrapped
    obtain rfl := Except.ok.inj hwrapped
    rw [entries_cons] at hsingles
    obtain ⟨first, hfirst, hsingles⟩ := bind_eq_ok hsingles
    obtain rfl := Except.ok.inj hsingles
    obtain ⟨others, hothers, hparts⟩ := ih hothers'
    refine ⟨first :: others, ?_, .cons (fun env => ?_) hparts⟩
    · rw [entries_cons, hfirst, hothers]
      rfl
    · rw [← hsame env, hjunctive.join_single .all first env]

/-- An object that holds nothing but a list of objects is read to the junction of these. -/
theorem eq_join_of_object_junction {key : String} {junction : Junction}
    (hkey : Junction.ofKey? key = some junction) {path : KeyPath} {items : List Json} {b : β}
    (h : object join member entry path (.object [(key, .array items)]) = .ok b) :
    ∃ parts, members member (path.key key) 0 items = .ok parts ∧
      b = join .all [join junction parts] := by
  obtain ⟨singles, hsingles, h⟩ := bind_eq_ok h
  obtain rfl := Except.ok.inj h
  rw [entries_cons, headPart, hkey] at hsingles
  obtain ⟨first, hfirst, hsingles⟩ := bind_eq_ok hsingles
  obtain rfl := Except.ok.inj hsingles
  obtain ⟨items', hitems', hfirst⟩ := bind_eq_ok hfirst
  obtain ⟨parts, hparts, hfirst⟩ := bind_eq_ok hfirst
  obtain rfl := Except.ok.inj hfirst
  obtain ⟨-, -, hitems'⟩ := bind_eq_ok hitems'
  obtain rfl := Except.ok.inj hitems'
  exact ⟨parts, hparts, rfl⟩

end Objects

variable (schema : Schema) (limit : Nat) (element : Element) (path : KeyPath)

/-- The entries of an object may be read as a list of objects. -/
theorem split_carried (pairs : List (String × Json)) :
    Carries Filter.predicate
      (Filter.read schema limit element path
        (.object [("AND", .array (pairs.map fun pair => .object [pair]))]))
      (Filter.read schema limit element path (.object pairs)) := by
  intro f' hread'
  have hkey : Junction.ofKey? "AND" = some .all := rfl
  obtain ⟨parts', hparts', rfl⟩ := eq_join_of_object_junction hkey hread'
  obtain ⟨parts, hparts, hpadded⟩ := entries_of_singletons Filter.junctive
    (fun value path' => (filter_and_connection_carried schema limit limit (Nat.le_succ limit)).1
      element value value (.refl _ value) path path') hparts'
  refine ⟨Filter.join .all parts, ?_, fun env => ?_⟩
  · show (entries _ _ _ _ _ >>= _) = _
    rw [hparts]
    rfl
  · rw [Filter.junctive.join_single .all _ env, Filter.junctive.join_padded hpadded .all env]

/-- A list with one member may be read as that member. -/
theorem single_carried {key : String} {junction : Junction}
    (hkey : Junction.ofKey? key = some junction) (value : Json) :
    Carries Filter.predicate
      (Filter.read schema limit element path (.object [(key, .array [value])]))
      (Filter.read schema limit element path value) := by
  intro f' hread'
  obtain ⟨parts', hparts', rfl⟩ := eq_join_of_object_junction hkey hread'
  obtain ⟨inner', hinner', hparts'⟩ := bind_eq_ok hparts'
  obtain rfl := Except.ok.inj hparts'
  obtain ⟨inner, hinner, hsame⟩ :=
    (filter_and_connection_carried schema limit limit (Nat.le_succ limit)).1 element value value
      (.refl _ value) path _ inner' hinner'
  refine ⟨inner, hinner, fun env => ?_⟩
  rw [Filter.junctive.join_single .all _ env, Filter.junctive.join_single junction _ env,
    hsame env]

end FilterReader

/-- The laws of junctions. Of each two filters, the second is accepted if the first is, and then
both are printed alike: a list of objects with one entry each and one object with all the entries;
a list of one filter and that filter; a filter with empty objects in lists at any depth and the
filter without them. -/
theorem renderedWhere_junctions (schema : Schema) (limit : Nat) (element : Element)
    (target : Variable) (options : RenderOptions) {next next' : Nat}
    (hnext : target.identity < next) (hnext' : target.identity < next') :
    let rendered := fun next value =>
      renderedWhere schema limit element target next options value
    (∀ pairs result,
      rendered next' (.object [("AND", .array (pairs.map fun pair => .object [pair]))]) =
        .ok result → rendered next (.object pairs) = .ok result) ∧
    (∀ key ∈ ["AND", "OR"], ∀ value result,
      rendered next' (.object [(key, .array [value])]) = .ok result →
        rendered next value = .ok result) ∧
    ∀ value value' result, Json.Padded schema (.element element) value value' →
      rendered next' value' = .ok result → rendered next value = .ok result := by
  refine ⟨fun pairs result => ?_, fun key hkey value result => ?_,
    fun value value' result hpadded => ?_⟩
  · exact renderedWhere_of_carries hnext hnext'
      (FilterReader.split_carried schema limit element .root pairs)
  · obtain ⟨junction, hjunction⟩ : ∃ junction, Junction.ofKey? key = some junction := by
      rcases List.mem_pair.mp hkey with rfl | rfl
      · exact ⟨.all, rfl⟩
      · exact ⟨.any, rfl⟩
    exact renderedWhere_of_carries hnext hnext'
      (FilterReader.single_carried schema limit element .root hjunction value)
  · exact renderedWhere_of_carries hnext hnext'
      ((FilterReader.filter_and_connection_carried schema limit limit (Nat.le_refl _)).1
        element value value' hpadded .root .root)

/-- A station with the stations after it. -/
def stationNode : Node where
  name := "Station"
  labels := ["Station"]
  fields :=
    [⟨"name", none, .scalar ⟨.string, false, none⟩⟩,
      ⟨"next", none, .relationship ⟨"LEADS_TO", .outgoing, "Station", true,
        [⟨"minutes", none, .scalar ⟨.int, false, none⟩⟩]⟩⟩]

/-- The entries of a filter with junctions on a node, on a connection and on aggregates. The
function completes the lists. -/
def stationEntries (complete : List Json → List Json) : List (String × Json) :=
  [("OR", .array (complete [.object [("name", .string "Aa")], .object [("name", .null)]])),
    ("nextConnection_NONE", .object [("AND", .array (complete
      [.object [("edge_NOT", .object [("minutes_GT", .ofNat 3)])]]))]),
    ("nextAggregate", .object [("OR", .array (complete [.object [("count_LT", .ofNat 2)]]))])]

/-- Completing the lists of the filter with empty objects pads it, on all three levels. -/
theorem padded_stationEntries :
    Json.Padded ⟨[stationNode]⟩ (.element stationNode.element) (.object (stationEntries id))
      (.object (stationEntries fun items => .object [] :: items)) := by
  refine .object (.junction rfl (.insert (.refl ..)) (.nested rfl rfl (.object ?_)
    (.nested rfl rfl (.object ?_) .nil)))
  · exact .junction rfl (.insert (.refl ..)) .nil
  · exact .junction rfl (.insert (.refl ..)) .nil

/-- What a filter on a station is printed as. -/
def renderedStation (next : Nat) (value : Json) :
    FilterResult (Option (Except BuildError (Option Query))) :=
  renderedWhere ⟨[stationNode]⟩ 32 stationNode.element (.namedNode 0 "this" []) next {} value

/-- A filter that is read, needs something and is built has a text. -/
theorem exists_of_rendered (rendered : FilterResult (Option (Except BuildError (Option Query))))
    (h : (rendered.toOption.join.bind fun built => built.toOption.join).isSome) :
    ∃ result, rendered = .ok (some (.ok (some result))) := by
  have hjoin {ε α : Type} {e : Except ε (Option α)} {a : α} (h : e.toOption.join = some a) :
      e = .ok (some a) := by
    cases e with
    | error error => simp [Except.toOption] at h
    | ok found => simpa [Except.toOption] using h
  obtain ⟨result, hresult⟩ := Option.isSome_iff_exists.mp h
  obtain ⟨built, hbuilt, hresult⟩ := Option.bind_eq_some_iff.mp hresult
  exact ⟨result, by rw [hjoin hbuilt, hjoin hresult]⟩

/-- The filter on stations is printed alike if its entries are split over a conjunction, if it is
the only member of a disjunction and if its lists are padded. -/
theorem renderedStation_junctions :
    (∃ result, renderedStation 1 (.object (stationEntries id)) = .ok (some (.ok (some result))) ∧
      renderedStation 7
          (.object [("AND", .array ((stationEntries id).map fun pair => .object [pair]))]) =
        .ok (some (.ok (some result)))) ∧
    (∃ result, renderedStation 1 (.object (stationEntries id)) = .ok (some (.ok (some result))) ∧
      renderedStation 7 (.object [("OR", .array [.object (stationEntries id)])]) =
        .ok (some (.ok (some result)))) ∧
    ∃ result, renderedStation 1 (.object (stationEntries id)) = .ok (some (.ok (some result))) ∧
      renderedStation 7 (.object (stationEntries fun items => .object [] :: items)) =
        .ok (some (.ok (some result))) := by
  obtain ⟨hsplit, hsingle, hpadded⟩ := renderedWhere_junctions ⟨[stationNode]⟩ 32
    stationNode.element (.namedNode 0 "this" []) {} (show 0 < 1 by decide) (show 0 < 7 by decide)
  refine ⟨?_, ?_, ?_⟩
  · obtain ⟨result, hresult⟩ := exists_of_rendered (renderedStation 7
      (.object [("AND", .array ((stationEntries id).map fun pair => .object [pair]))]))
      (by decide +kernel)
    exact ⟨result, hsplit _ _ hresult, hresult⟩
  · obtain ⟨result, hresult⟩ := exists_of_rendered (renderedStation 7
      (.object [("OR", .array [.object (stationEntries id)])])) (by decide +kernel)
    exact ⟨result, hsingle "OR" (by decide) _ _ hresult, hresult⟩
  · obtain ⟨result, hresult⟩ := exists_of_rendered (renderedStation 7
      (.object (stationEntries fun items => .object [] :: items))) (by decide +kernel)
    exact ⟨result, hpadded _ _ _ padded_stationEntries hresult, hresult⟩

end GraphRead
