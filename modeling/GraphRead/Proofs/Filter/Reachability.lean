import GraphRead.Proofs.Filter.Grammar

/-!
# Which scalar fields a key reaches

The key of a scalar field and an operator is the name of the field, an
underscore and the suffix of the operator. Such a key has several readings,
since the end of the name may be taken for a marker or for a part of the
operator. A marker does no harm: the reading in which it belongs to the field
comes next. But a name that ends in `_NOT` loses this word to an operator that
has a negation, and no later reading gives it back. All other scalar fields are
reached by every operator that they allow, unless the beginning of their name is
a field of its own.
-/

namespace GraphRead

/-- The key of a field and an operator. -/
def FilterOperator.key (operator : FilterOperator) (name : String) : String :=
  name ++ "_" ++ operator.suffix

/-- An operator takes the last word of a name for a part of its negation. -/
def FilterOperator.Absorbs (operator : FilterOperator) (name : String) : Prop :=
  "_NOT".toList <:+ name.toList ∧ name ≠ "_NOT" ∧
    ∃ negation ∈ all, negation.suffix = "NOT_" ++ operator.suffix

instance (operator : FilterOperator) (name : String) : Decidable (operator.Absorbs name) :=
  inferInstanceAs (Decidable (_ ∧ _ ∧ _))

/-- The list of all operators is complete. -/
theorem FilterOperator.mem_all (operator : FilterOperator) : operator ∈ all := by
  cases operator <;> decide

/-- An operator absorbs the last word of a name that ends in "_NOT", if there is a negation of the
operator and the name has something before that word. -/
theorem FilterOperator.absorbs_iff {operator : FilterOperator} {name : String} :
    operator.Absorbs name ↔ ∃ stem, stem ≠ "" ∧ name = stem ++ "_NOT" ∧
      ∃ negation : FilterOperator, negation.suffix = "NOT_" ++ operator.suffix := by
  constructor
  · rintro ⟨⟨chars, hchars⟩, hne, negation, -, hnegation⟩
    have hname : name = String.ofList chars ++ "_NOT" := by
      apply String.toList_injective
      simp [← hchars]
    refine ⟨String.ofList chars, ?_, hname, negation, hnegation⟩
    intro hempty
    exact hne (by rw [hname, hempty, String.empty_append])
  · rintro ⟨stem, hstem, rfl, negation, hnegation⟩
    refine ⟨⟨stem.toList, (String.toList_append ..).symm⟩, ?_, negation, negation.mem_all,
      hnegation⟩
    intro heq
    have hlength : stem.length + "_NOT".length = "_NOT".length := by
      rw [← String.length_append, heq]
    have hpositive : stem.length ≠ 0 := by simpa using hstem
    omega

namespace FilterKey

/-! ### Tails of keys -/

/-- The characters of a marker that may be missing. -/
def markerChars : Option Marker → List Char
  | none => []
  | some marker => marker.word.toList

/-- The characters of an operator that may be missing. -/
def operatorChars : Option String → List Char
  | none => []
  | some operator => '_' :: operator.toList

/-- A text is an operator only if it is spelled so. -/
theorem operator?_eq_some {text : List Char} {operator : Option String}
    (h : operator? text = some operator) :
    text = operatorChars operator ∧ ∀ word ∈ operator, word ∈ operators := by
  unfold operator? at h
  split at h
  · obtain rfl := Option.some.inj h
    simp [operatorChars]
  · obtain ⟨word, hfind, rfl⟩ := Option.map_eq_some_iff.mp h
    have htext : text = '_' :: word.toList := by simpa using List.find?_some hfind
    have hmem : word ∈ operators := List.mem_of_find?_eq_some hfind
    refine ⟨htext, ?_⟩
    rintro other ⟨⟩
    exact hmem

/-- A tail consists of a marker and an operator, each of which may be missing. -/
theorem tail?_eq_some {text : List Char} {marker : Option Marker} {operator : Option String}
    (h : tail? text = some (marker, operator)) :
    text = markerChars marker ++ operatorChars operator ∧ ∀ word ∈ operator, word ∈ operators := by
  have hafter {found : Option Marker} {rest : List Char}
      (hrest : ((operator? rest).map fun operator => (found, operator)) = some (marker, operator)) :
      marker = found ∧ rest = operatorChars operator ∧ ∀ word ∈ operator, word ∈ operators := by
    obtain ⟨other, hother, heq⟩ := Option.map_eq_some_iff.mp hrest
    obtain ⟨rfl, rfl⟩ := Prod.mk.inj heq
    exact ⟨rfl, operator?_eq_some hother⟩
  unfold tail? at h
  split at h
  next rest hrest =>
    obtain ⟨rfl, rfl, hwords⟩ := hafter h
    exact ⟨(List.isPrefixOf?_eq_some_iff_append_eq.mp hrest).symm, hwords⟩
  next =>
    split at h
    next rest hrest =>
      obtain ⟨rfl, rfl, hwords⟩ := hafter h
      exact ⟨(List.isPrefixOf?_eq_some_iff_append_eq.mp hrest).symm, hwords⟩
    next =>
      obtain ⟨rfl, rfl, hwords⟩ := hafter h
      exact ⟨rfl, hwords⟩

/-- What follows a field in the key of an operator is read as the operator without a marker. -/
theorem tail?_operator (operator : FilterOperator) :
    tail? ('_' :: operator.suffix.toList) = some (none, some operator.suffix) := by
  cases operator <;> decide

/-- Markers have no underscore, so that the first one starts the operator. -/
theorem underscore_notMem_markerChars (marker : Option Marker) : '_' ∉ markerChars marker := by
  match marker with
  | none => simp [markerChars]
  | some .aggregate => decide
  | some .connection => decide

/-- The only operators that end in another one are the negations. -/
theorem negation_of_suffix {word : String} (hword : word ∈ operators) (operator : FilterOperator)
    (h : ('_' :: operator.suffix.toList) <:+ ('_' :: word.toList)) :
    word = operator.suffix ∨
      word = "NOT_" ++ operator.suffix ∧ ∃ negation : FilterOperator, negation.suffix = word := by
  have hall : ∀ word ∈ operators, ∀ operator ∈ FilterOperator.all,
      ('_' :: operator.suffix.toList) <:+ ('_' :: word.toList) →
        word = operator.suffix ∨ word = "NOT_" ++ operator.suffix ∧
          ∃ negation ∈ FilterOperator.all, negation.suffix = word := by
    decide +kernel
  rcases hall word hword operator operator.mem_all h with heq | ⟨heq, negation, -, hnegation⟩
  · exact .inl heq
  · exact .inr ⟨heq, negation, hnegation⟩

/-- What may stand in front of an operator in a tail: nothing, a marker, or the word of a negation
after a marker that may be missing. -/
theorem front_of_tail? {front : List Char} {operator : FilterOperator} {marker : Option Marker}
    {found : Option String}
    (h : tail? (front ++ '_' :: operator.suffix.toList) = some (marker, found)) :
    (front = markerChars marker ∧ found = some operator.suffix) ∨
      front = markerChars marker ++ "_NOT".toList ∧
        ∃ negation : FilterOperator, negation.suffix = "NOT_" ++ operator.suffix := by
  obtain ⟨htext, hwords⟩ := tail?_eq_some h
  have hmarker := underscore_notMem_markerChars marker
  cases found with
  | none =>
    have hmem : '_' ∈ front ++ '_' :: operator.suffix.toList := by simp
    rw [htext] at hmem
    simp [operatorChars, hmarker] at hmem
  | some word =>
    have hword : word ∈ operators := hwords word rfl
    rcases List.append_eq_append_iff.mp htext with ⟨rest, hfront, hrest⟩ | ⟨rest, hfront, hrest⟩
    · -- The operator begins inside the marker only if it begins at its end.
      cases rest with
      | nil =>
        have hsame : operator.suffix = word := String.toList_injective (List.cons.inj hrest).2
        rw [List.append_nil] at hfront
        exact .inl ⟨hfront.symm, by rw [hsame]⟩
      | cons c rest =>
        obtain rfl : '_' = c := (List.cons.inj hrest).1
        simp [hfront] at hmarker
    · rcases negation_of_suffix hword operator ⟨rest, hrest.symm⟩ with
        rfl | ⟨rfl, negation, hnegation⟩
      · have hnil : rest = [] := List.self_eq_append_left.mp hrest
        exact .inl ⟨by rw [hfront, hnil, List.append_nil], rfl⟩
      · have hsplit : "_NOT".toList ++ '_' :: operator.suffix.toList =
            rest ++ '_' :: operator.suffix.toList := by
          rw [← hrest, operatorChars, String.toList_append]
          rfl
        refine .inr ⟨?_, negation, hnegation⟩
        rw [hfront, List.append_cancel_right hsplit]

/-! ### Readings of keys -/

/-- If a beginning of a text is followed by a rest that is accepted, then the shortest split is
there or before it. -/
theorem shortestSplit_before {β : Type} {accept : List Char → Option β} {before rest : List Char}
    {b : β} (hbefore : before ≠ []) (h : accept rest = some b) :
    ∃ shorter others c, shorter ≠ [] ∧ before = shorter ++ others ∧
      accept (others ++ rest) = some c ∧
      shortestSplit accept (before ++ rest) = some (shorter, c) := by
  induction before with
  | nil => exact absurd rfl hbefore
  | cons first others ih =>
    cases haccept : accept (others ++ rest) with
    | some c =>
      refine ⟨[first], others, c, by simp, rfl, haccept, ?_⟩
      simp [shortestSplit, haccept]
    | none =>
      have hothers : others ≠ [] := by
        rintro rfl
        simp [h] at haccept
      obtain ⟨shorter, middle, c, -, rfl, hc, hsplit⟩ := ih hothers
      refine ⟨first :: shorter, middle, c, by simp, rfl, hc, ?_⟩
      simp only [List.cons_append, shortestSplit, haccept, hsplit, Option.map_some]

/-- The key of an operator has the characters of the name, an underscore and the suffix. -/
theorem toList_key (operator : FilterOperator) (name : String) :
    (operator.key name).toList = name.toList ++ '_' :: operator.suffix.toList := by
  simp [FilterOperator.key]

/-- The readings of the key of a field and an operator that does not take a word from its name. A
marker at the end of the name is read as a marker first. -/
theorem readings_key {operator : FilterOperator} {name : String} (hname : name ≠ "")
    (hplain : Identifier.isPlain (operator.key name) = true) (habsorbs : ¬ operator.Absorbs name) :
    readings (operator.key name) =
        [⟨name, none, some operator.suffix⟩, ⟨operator.key name, none, none⟩] ∨
      ∃ stem marker, stem ≠ "" ∧ name = stem ++ Marker.word marker ∧
        readings (operator.key name) =
          [⟨stem, some marker, some operator.suffix⟩, ⟨name, none, some operator.suffix⟩,
            ⟨operator.key name, none, none⟩] := by
  have hchars : name.toList ≠ [] := by simpa using hname
  obtain ⟨stem, front, ⟨marker, found⟩, hstem, hsplit, htail, hshortest⟩ :=
    shortestSplit_before hchars (tail?_operator operator)
  have hofList : name = String.ofList stem ++ String.ofList front := by
    rw [← String.ofList_append, ← hsplit, String.ofList_toList]
  have hstemText : String.ofList stem ≠ "" := by simpa using hstem
  unfold readings
  rw [if_pos hplain, toList_key, hshortest]
  rcases front_of_tail? htail with ⟨rfl, rfl⟩ | ⟨rfl, hnegation⟩
  · cases marker with
    | none =>
      have hwhole : String.ofList stem = name := by simp [hofList, markerChars]
      exact .inl (by simp [readingsOf, hwhole])
    | some marker =>
      have hwhole : String.ofList stem ++ marker.word = name := by simp [hofList, markerChars]
      exact .inr ⟨String.ofList stem, marker, hstemText, hwhole.symm,
        by simp [readingsOf, hwhole]⟩
  · -- The name would end in the word of a negation.
    refine absurd (FilterOperator.absorbs_iff.mpr
      ⟨String.ofList stem ++ String.ofList (markerChars marker), ?_, ?_, hnegation⟩) habsorbs
    · simp [hstem]
    · rw [hofList, String.ofList_append, String.ofList_toList, String.append_assoc]

/-- The key of a plain name is plain. -/
theorem isPlain_key {name : String} (h : Identifier.isPlain name = true)
    (operator : FilterOperator) : Identifier.isPlain (operator.key name) = true := by
  have hpart : ('_' :: operator.suffix.toList).all Identifier.isPart = true := by
    cases operator <;> decide
  unfold Identifier.isPlain at h ⊢
  rw [toList_key]
  cases hchars : name.toList with
  | nil => simp [hchars, Identifier.isPlainChars] at h
  | cons c rest =>
    rw [hchars, Identifier.isPlainChars, Bool.and_eq_true] at h
    rw [List.cons_append, Identifier.isPlainChars, List.all_append, h.1, h.2, hpart]
    rfl

/-- A key with an operator is no junction, which has no underscore. -/
theorem ofKey?_key (operator : FilterOperator) (name : String) :
    Junction.ofKey? (operator.key name) = none := by
  have hmem : '_' ∈ (operator.key name).toList := by simp [toList_key]
  unfold Junction.ofKey?
  split
  next heq => simp [heq] at hmem
  next heq => simp [heq] at hmem
  next => rfl

end FilterKey

/-- A name of which a word is absorbed makes the same key as the rest of it with the negation of
the operator, and no further word is absorbed. -/
theorem FilterOperator.Absorbs.key_eq {operator : FilterOperator} {name : String}
    (h : operator.Absorbs name) :
    ∃ (stem : String) (negation : FilterOperator), stem ≠ "" ∧ name = stem ++ "_NOT" ∧
      operator.key name = negation.key stem ∧ ¬ negation.Absorbs stem := by
  obtain ⟨stem, hstem, rfl, negation, hnegation⟩ := absorbs_iff.mp h
  refine ⟨stem, negation, hstem, rfl, ?_, ?_⟩
  · simp only [key, hnegation, String.append_assoc]
    rfl
  · have hall : ∀ operator ∈ all, ∀ negation ∈ all, ∀ other ∈ all,
        negation.suffix = "NOT_" ++ operator.suffix →
          other.suffix ≠ "NOT_" ++ negation.suffix := by
      decide +kernel
    rintro ⟨-, -, other, hmem, hother⟩
    exact hall operator operator.mem_all negation negation.mem_all other hmem hnegation hother

namespace FilterReader

section Keys

variable {element : Element} {name : String} {operator : FilterOperator}

/-- A field is found by its name, perhaps as an earlier one of that name. -/
theorem exists_field? {field : Field} (h : field ∈ element.fields) :
    ∃ found, element.field? field.name = some found ∧ found.name = field.name := by
  have hfound : (element.fields.find? (·.name = field.name)).isSome :=
    List.find?_isSome.mpr ⟨field, h, by simp⟩
  obtain ⟨found, hfound⟩ := Option.isSome_iff_exists.mp hfound
  exact ⟨found, hfound, by simpa using List.find?_some hfound⟩

/-- A proper beginning of a name names no field if no other field begins the name. -/
theorem field?_of_proper {stem rest : String}
    (hfirst : ∀ other ∈ element.fields, other.name.toList <+: name.toList → other.name = name)
    (hname : name = stem ++ rest) (hrest : rest ≠ "") : element.field? stem = none := by
  unfold Element.field? findField
  rw [List.find?_eq_none]
  intro other hother
  simp only [decide_eq_true_eq]
  rintro rfl
  have hsame : other.name = name :=
    hfirst other hother ⟨rest.toList, by rw [hname, String.toList_append]⟩
  have hlength : other.name.length = other.name.length + rest.length := by
    rw [← String.length_append, ← hname, hsame]
  have hpositive : rest.length ≠ 0 := by simpa using hrest
  omega

/-- A reading that names no field is not taken. -/
theorem named?_of_unknown {reading : Reading} (h : element.field? reading.field = none) :
    named? element reading = none := by
  simp [named?, h]

/-- A reading without a marker is taken if there is a field of its name, of whatever kind. -/
theorem named?_unmarked (text : String) (operator : Option String) :
    named? element ⟨text, none, operator⟩ =
      (element.field? text).map fun field => (⟨text, none, operator⟩, field) := by
  cases h : element.field? text <;> simp [named?, h]

/-- A key is resolved to the first reading of it that is taken. -/
theorem resolve?_eq_findSome? (key : String) :
    resolve? element key = (FilterKey.readings key).findSome? (named? element) := rfl

/-- Unless a word of the name is absorbed, the key of a field and an operator is read as such. -/
theorem resolve?_key (hplain : Identifier.isPlain name = true)
    (hfirst : ∀ other ∈ element.fields, other.name.toList <+: name.toList → other.name = name)
    (habsorbs : ¬ operator.Absorbs name) {found : Field}
    (hfound : element.field? name = some found) :
    resolve? element (operator.key name) = some (⟨name, none, some operator.suffix⟩, found) := by
  have hne : name ≠ "" := by
    rintro rfl
    simp [Identifier.isPlain, Identifier.isPlainChars] at hplain
  have hplainKey := FilterKey.isPlain_key hplain operator
  rw [resolve?_eq_findSome?]
  rcases FilterKey.readings_key hne hplainKey habsorbs with h | ⟨stem, marker, -, hname, h⟩
  · rw [h, List.findSome?_cons, named?_unmarked, hfound]
    rfl
  · have hstem : element.field? stem = none :=
      field?_of_proper hfirst hname (by cases marker <;> decide)
    rw [h, List.findSome?_cons, named?_of_unknown hstem, List.findSome?_cons, named?_unmarked,
      hfound]
    rfl

/-- If a word of the name is absorbed, the key can only be the name of a field as a whole. -/
theorem resolve?_absorbed (hplain : Identifier.isPlain name = true)
    (hfirst : ∀ other ∈ element.fields, other.name.toList <+: name.toList → other.name = name)
    (habsorbs : operator.Absorbs name) :
    resolve? element (operator.key name) =
      (element.field? (operator.key name)).map fun other =>
        (⟨operator.key name, none, none⟩, other) := by
  obtain ⟨stem, negation, hstem, hname, hkey, hagain⟩ := habsorbs.key_eq
  have hplainKey := FilterKey.isPlain_key hplain operator
  have hnone : element.field? stem = none := field?_of_proper hfirst hname (by decide)
  have hlast {text : String} : List.findSome? (named? element) [⟨text, none, none⟩] =
      (element.field? text).map fun other => (⟨text, none, none⟩, other) := by
    rw [List.findSome?_cons, named?_unmarked]
    cases element.field? text <;> rfl
  rw [hkey] at hplainKey ⊢
  rw [resolve?_eq_findSome?]
  -- All readings but the last need a field whose name begins this one, and there is none. The last
  -- reading takes the whole key for a name.
  rcases FilterKey.readings_key hstem hplainKey hagain with h | ⟨first, marker, -, hfront, h⟩
  · rw [h, List.findSome?_cons, named?_of_unknown hnone]
    exact hlast
  · have hwhole : name = first ++ (marker.word ++ "_NOT") := by
      rw [hname, hfront, String.append_assoc]
    have hshort : element.field? first = none :=
      field?_of_proper hfirst hwhole (by cases marker <;> decide)
    rw [h, List.findSome?_cons, named?_of_unknown hshort, List.findSome?_cons,
      named?_of_unknown hnone]
    exact hlast

/-- A filter with the key of a scalar field and an operator compares the stored property. -/
theorem read_key {field : Field} {scalar : Scalar} (hkind : field.kind = .scalar scalar)
    (hallowed : operator ∈ scalar.allowed) {marker : Option Marker}
    (hresolve : resolve? element (operator.key name) =
      some (⟨name, marker, some operator.suffix⟩, field))
    {value : Json} (hvalue : takesList (some operator) → value.isNull ∨ value.isArray)
    (schema : Schema) (limit : Nat) (path : KeyPath) :
    Filter.read schema limit element path (.object [(operator.key name, value)]) =
      .ok (.all [.property field.property (some operator) value]) := by
  have hscalar (place : KeyPath) : FilterReader.scalar place field (some operator.suffix) value =
      .ok (.property field.property (some operator) value) := by
    have hoperator : scalarOperator place field (some operator.suffix) = .ok (some operator) :=
      (scalarOperator_eq_ok_iff hkind).mpr (.inr ⟨operator, rfl, hallowed, rfl⟩)
    have hlist : ¬ (takesList (some operator) ∧ !value.isNull ∧ !value.isArray) := by
      rintro ⟨htakes, hnull, harray⟩
      rcases hvalue htakes with h | h <;> simp [h] at hnull harray
    rw [FilterReader.scalar, hoperator]
    exact if_neg hlist
  have hentry : entry schema (filter schema limit limit) (connection schema limit limit)
      (fun link => aggregate limit link limit) element (path.key (operator.key name))
      (operator.key name) value = .ok (.property field.property (some operator) value) := by
    simp only [entry, hresolve, hkind, hscalar]
  rw [Filter.read, FilterReader.filter, object, entries, FilterKey.ofKey?_key, hentry]
  rfl

end Keys

/-- The key of a scalar field and an operator that it allows is read as the two of them exactly if
the operator absorbs no word of the name. Otherwise the key can only name another field. -/
theorem scalarKey_reaches_iff {element : Element} {field : Field} {scalar : Scalar}
    {operator : FilterOperator} (hfield : field ∈ element.fields)
    (hkind : field.kind = .scalar scalar) (hallowed : operator ∈ scalar.allowed)
    (hplain : Identifier.isPlain field.name = true)
    (hfirst : ∀ other ∈ element.fields,
      other.name.toList <+: field.name.toList → other.name = field.name) :
    ((∃ found, found.name = field.name ∧ resolve? element (operator.key field.name) =
        some (⟨field.name, none, some operator.suffix⟩, found)) ↔
      ¬ operator.Absorbs field.name) ∧
    (operator.Absorbs field.name → resolve? element (operator.key field.name) =
      (element.field? (operator.key field.name)).map fun other =>
        (⟨operator.key field.name, none, none⟩, other)) ∧
    (¬ operator.Absorbs field.name → element.field? field.name = some field →
      ∀ (schema : Schema) (limit : Nat) (path : KeyPath) (value : Json),
        (takesList (some operator) → value.isNull ∨ value.isArray) →
        Filter.read schema limit element path (.object [(operator.key field.name, value)]) =
          .ok (.all [.property field.property (some operator) value])) := by
  obtain ⟨found, hfound, hname⟩ := exists_field? hfield
  refine ⟨⟨?_, ?_⟩, resolve?_absorbed hplain hfirst, ?_⟩
  · rintro ⟨other, -, hother⟩ habsorbs
    rw [resolve?_absorbed hplain hfirst habsorbs] at hother
    obtain ⟨whole, -, heq⟩ := Option.map_eq_some_iff.mp hother
    have hoperator : none = some operator.suffix := congrArg (fun pair => pair.1.operator) heq
    cases hoperator
  · intro habsorbs
    exact ⟨found, hname, resolve?_key hplain hfirst habsorbs hfound⟩
  · intro habsorbs hself schema limit path value hvalue
    have hresolve := resolve?_key hplain hfirst habsorbs hself
    exact read_key hkind hallowed hresolve hvalue schema limit path

/-- A field whose name ends in the word of a negation. -/
def seenField : Field := ⟨"seen_NOT", some "hidden", .scalar ⟨.string, false, none⟩⟩

/-- Visits, the fields of which end in words that keys are made of. -/
def visitElement : Element :=
  ⟨"Visit", [⟨"lastConnection", none, .scalar ⟨.dateTime, false, none⟩⟩, seenField]⟩

/-- Comparing the field by order is possible, since no negation is in the way. Looking for it in a
list is not. -/
theorem seenField_keys :
    Filter.read ⟨[]⟩ 0 visitElement .root (.object [("seen_NOT_GT", .string "a")]) =
        .ok (.all [.property "hidden" (some .greater) (.string "a")]) ∧
      resolve? visitElement "seen_NOT_IN" = none := by
  have hfield : seenField ∈ visitElement.fields := List.mem_cons_of_mem _ List.mem_cons_self
  have hfirst : ∀ other ∈ visitElement.fields,
      other.name.toList <+: seenField.name.toList → other.name = seenField.name := by
    simp only [visitElement, List.forall_mem_cons]
    exact ⟨by decide, by decide, by simp⟩
  have hgreater : FilterOperator.key .greater seenField.name = "seen_NOT_GT" := by decide
  have honeOf : FilterOperator.key .oneOf seenField.name = "seen_NOT_IN" := by decide
  obtain ⟨-, -, hread⟩ := @scalarKey_reaches_iff visitElement seenField _ .greater hfield rfl
    (by decide) (by decide) hfirst
  obtain ⟨-, habsorbed, -⟩ := @scalarKey_reaches_iff visitElement seenField _ .oneOf hfield rfl
    (by decide) (by decide) hfirst
  rw [← hgreater, ← honeOf]
  exact ⟨hread (by decide) rfl _ _ _ _ (by decide), habsorbed (by decide)⟩

end FilterReader

end GraphRead
