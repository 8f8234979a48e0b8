import GraphRead.Proofs.Filter.Reachability
import GraphRead.Proofs.Rendering.PlainNames

/-!
# How filter keys are split

A filter key is put together from the name of a field, a marker and an operator,
and a key of an aggregate filter from the name of a field, a function and a
comparison. Names may contain all of these words. This file says what a key is
split into: a filter key at the shortest name that leaves a marker and an operator,
and a key of an aggregate filter at the only place that there is.
-/

namespace GraphRead

/-- How a marker is spelled in a key. -/
def Marker.spelling : Marker → String
  | aggregate => "Aggregate"
  | connection => "Connection"

/-- Markers are spelled in keys as they are in the names of fields. -/
theorem Marker.spelling_eq_word (marker : Marker) : marker.spelling = marker.word := by
  cases marker <;> rfl

/-- The operators of keys: quantifiers, comparisons, and the comparisons that can be denied. -/
def Reading.operatorWords : List String :=
  ["ALL", "NONE", "SINGLE", "SOME", "LT", "LTE", "GT", "GTE", "MATCHES", "IN", "INCLUDES",
    "CONTAINS", "STARTS_WITH", "ENDS_WITH", "NOT", "NOT_IN", "NOT_INCLUDES", "NOT_CONTAINS",
    "NOT_STARTS_WITH", "NOT_ENDS_WITH"]

/-- The key that a reading puts together. -/
def Reading.text (reading : Reading) : String :=
  reading.field ++ reading.marker.elim "" Marker.spelling ++ reading.operator.elim "" ("_" ++ ·)

/-- A reading cuts a key into a plain name, a marker and an operator, of which the last two may be
missing. -/
structure Reading.Splits (reading : Reading) (key : String) : Prop where
  plain : Identifier.isPlain reading.field = true
  listed : ∀ operator ∈ reading.operator, operator ∈ operatorWords
  text : reading.text = key

/-- The spellings of an aggregate function. -/
def AggregateFunction.spellings : AggregateFunction → List String
  | average => ["AVERAGE"]
  | sum => ["SUM"]
  | min => ["MIN"]
  | max => ["MAX"]
  | shortestLength => ["SHORTEST_LENGTH", "SHORTEST"]
  | longestLength => ["LONGEST_LENGTH", "LONGEST"]
  | averageLength => ["AVERAGE_LENGTH"]

/-- The spelling of a comparison of aggregates, if aggregates can be compared in this way. -/
def Comparison.spelling? : Comparison → Option String
  | equal => some "EQUAL"
  | greater => some "GT"
  | greaterOrEqual => some "GTE"
  | less => some "LT"
  | lessOrEqual => some "LTE"
  | within | contains | startsWith | endsWith | matching | isNull | isNotNull => none

/-- A plain name is not empty. -/
theorem Identifier.ne_empty_of_isPlain {name : String} (h : isPlain name = true) : name ≠ "" := by
  rintro rfl
  simp [isPlain, isPlainChars] at h

/-- A text that begins with a plain identifier is one if the rest may follow in it. -/
theorem Identifier.isPlain_of_begins {key field : String} {rest : List Char}
    (hkey : key.toList = field.toList ++ rest) (hfield : isPlain field = true)
    (hrest : ∀ c ∈ rest, isPart c = true) : isPlain key = true := by
  have happend : key = field ++ String.ofList rest := by
    apply String.toList_injective
    rw [hkey, String.toList_append, String.toList_ofList]
  rw [happend]
  exact isPlain_append hfield (by rwa [String.toList_ofList])

/-- A beginning of a plain identifier is one. -/
theorem Identifier.isPlain_beginning {key : String} {before rest : List Char}
    (hkey : key.toList = before ++ rest) (hbefore : before ≠ []) (h : isPlain key = true) :
    isPlain (String.ofList before) = true := by
  unfold isPlain at h ⊢
  rw [String.toList_ofList]
  cases before with
  | nil => exact absurd rfl hbefore
  | cons c others =>
    simp only [hkey, List.cons_append, isPlainChars, List.all_append, Bool.and_eq_true] at h ⊢
    exact ⟨h.1, h.2.1⟩

namespace FilterKey

/-! ### Filter keys -/

/-- Every listed operator is recognized after its underscore. -/
theorem operator?_operatorChars {operator : Option String}
    (h : ∀ word ∈ operator, word ∈ operators) :
    operator? (operatorChars operator) = some operator := by
  cases operator with
  | none => rfl
  | some word =>
    have hfound : (operators.find? fun other =>
        '_' :: word.toList = '_' :: other.toList).isSome :=
      List.find?_isSome.mpr ⟨word, h word rfl, by simp⟩
    obtain ⟨other, hother⟩ := Option.isSome_iff_exists.mp hfound
    have hsame : word = other := String.toList_injective (by simpa using List.find?_some hother)
    rw [operatorChars, operator?, hother, hsame]
    · rfl
    · simp

/-- Every marker and every listed operator after it are recognized. Since an operator begins with
an underscore and no marker does, nothing is taken for a marker that is none. -/
theorem tail?_append {operator : Option String} (marker : Option Marker)
    (h : ∀ word ∈ operator, word ∈ operators) :
    tail? (markerChars marker ++ operatorChars operator) = some (marker, operator) := by
  have hoperator := operator?_operatorChars h
  cases marker with
  | none =>
    cases operator with
    | none => rfl
    | some word =>
      simp [tail?, markerChars, operatorChars, Marker.word, List.isPrefixOf?] at hoperator ⊢
      exact hoperator
  | some marker =>
    cases marker <;>
      simp [tail?, markerChars, Marker.word, List.isPrefixOf?, hoperator]

end FilterKey

namespace Reading

open FilterKey

/-- The words that operators are spelled with are those that are looked for. -/
theorem mem_operatorWords_iff {word : String} : word ∈ operatorWords ↔ word ∈ operators := by
  have hperm : operatorWords.Perm operators := by decide +kernel
  exact hperm.mem_iff

/-- The operator of a reading is one of those that are looked for. -/
theorem Splits.mem_operators {reading : Reading} {key : String} (h : reading.Splits key) :
    ∀ word ∈ reading.operator, word ∈ operators := by
  intro word hword
  exact mem_operatorWords_iff.mp (h.listed word hword)

/-- The text of a reading is the field, the marker and the operator. -/
theorem toList_text (reading : Reading) :
    reading.text.toList =
      reading.field.toList ++ (markerChars reading.marker ++ operatorChars reading.operator) := by
  obtain ⟨field, marker, operator⟩ := reading
  cases marker <;> cases operator <;>
    simp [text, markerChars, operatorChars, Marker.spelling_eq_word]

/-- Markers and operators consist of characters of plain identifiers. -/
theorem isPart_of_mem_tail {marker : Option Marker} {operator : Option String}
    (h : ∀ word ∈ operator, word ∈ operators) :
    ∀ c ∈ markerChars marker ++ operatorChars operator, Identifier.isPart c = true := by
  have hoperators : operators.all fun word => word.toList.all Identifier.isPart := by
    decide +kernel
  have hmarker : ∀ c ∈ markerChars marker, Identifier.isPart c = true := by
    apply List.all_eq_true.mp
    rcases marker with _ | _ | _ <;> decide
  have hoperator : ∀ c ∈ operatorChars operator, Identifier.isPart c = true := by
    cases operator with
    | none => simp [operatorChars]
    | some word =>
      refine List.forall_mem_cons.mpr ⟨by decide, List.all_eq_true.mp ?_⟩
      exact List.all_eq_true.mp hoperators word (h word rfl)
  exact List.forall_mem_append.mpr ⟨hmarker, hoperator⟩

/-- A key is the field, the marker and the operator of any of its readings. -/
theorem Splits.toList_key {reading : Reading} {key : String} (h : reading.Splits key) :
    key.toList =
      reading.field.toList ++ (markerChars reading.marker ++ operatorChars reading.operator) := by
  rw [← h.text, toList_text]

/-- Only plain identifiers are split. -/
theorem Splits.isPlain {reading : Reading} {key : String} (h : reading.Splits key) :
    Identifier.isPlain key = true :=
  Identifier.isPlain_of_begins h.toList_key h.plain (isPart_of_mem_tail h.mem_operators)

/-- A plain identifier is split by the reading that takes all of it for a name. -/
theorem splits_whole {key : String} (h : Identifier.isPlain key = true) :
    Splits ⟨key, none, none⟩ key where
  plain := h
  listed := by simp
  text := by simp [text]

/-- What the shortest split finds splits the key. -/
theorem splits_of_shortestSplit {key : String} (hplain : Identifier.isPlain key = true)
    {field rest : List Char} {marker : Option Marker} {operator : Option String}
    (hfield : field ≠ []) (hkey : key.toList = field ++ rest)
    (htail : tail? rest = some (marker, operator)) :
    Splits ⟨String.ofList field, marker, operator⟩ key := by
  obtain ⟨rfl, hlisted⟩ := tail?_eq_some htail
  refine ⟨Identifier.isPlain_beginning hkey hfield hplain,
    fun word hword => mem_operatorWords_iff.mpr (hlisted word hword), ?_⟩
  apply String.toList_injective
  rw [toList_text, hkey, String.toList_ofList]

/-- The shortest split of a key is found where any other one is, or before it. -/
theorem Splits.exists_shortest {reading : Reading} {key : String} (h : reading.Splits key) :
    ∃ first : Reading, first.Splits key ∧
      shortestSplit tail? key.toList =
        some (first.field.toList, first.marker, first.operator) ∧
      first.field.toList <+: reading.field.toList := by
  have hkey := h.toList_key
  have hfield : reading.field.toList ≠ [] := by
    simpa using Identifier.ne_empty_of_isPlain h.plain
  obtain ⟨shorter, others, ⟨marker, operator⟩, hshorter, hsplit, htail, hshortest⟩ :=
    shortestSplit_before hfield (tail?_append reading.marker h.mem_operators)
  refine ⟨⟨String.ofList shorter, marker, operator⟩, ?_, ?_, ?_⟩
  · refine splits_of_shortestSplit h.isPlain hshorter ?_ htail
    rw [hkey, hsplit, List.append_assoc]
  · rw [hkey, hshortest, String.toList_ofList]
  · rw [String.toList_ofList]
    exact ⟨others, hsplit.symm⟩

/-- Readings that cut a key behind the same name are the same. -/
theorem Splits.eq_of_field_eq {reading other : Reading} {key : String} (h : reading.Splits key)
    (h' : other.Splits key) (hfield : reading.field = other.field) : reading = other := by
  have htexts := h.toList_key.symm.trans h'.toList_key
  rw [hfield] at htexts
  have htails := congrArg tail? (List.append_cancel_left htexts)
  rw [tail?_append _ h.mem_operators, tail?_append _ h'.mem_operators] at htails
  obtain ⟨hmarker, hoperator⟩ := Prod.mk.inj (Option.some.inj htails)
  obtain ⟨field, marker, operator⟩ := reading
  obtain ⟨field', marker', operator'⟩ := other
  obtain rfl : field = field' := hfield
  obtain rfl : marker = marker' := hmarker
  obtain rfl : operator = operator' := hoperator
  rfl

/-- A reading that begins with the shortest name has the strictly shortest one. -/
theorem Splits.length_lt {first other : Reading} {key : String} (h : first.Splits key)
    (h' : other.Splits key) (hbegins : first.field.toList <+: other.field.toList)
    (hne : other ≠ first) : first.field.length < other.field.length := by
  refine Nat.lt_of_le_of_ne ?_ fun hlength => ?_
  · simpa only [String.length_toList] using hbegins.length_le
  · refine hne (h.eq_of_field_eq h' (String.toList_injective ?_)).symm
    exact hbegins.eq_of_length (by simpa only [String.length_toList] using hlength)

/-- The readings of a plain identifier begin with the one that has the shortest name. -/
theorem exists_readings {key : String} (h : Identifier.isPlain key = true) :
    ∃ first : Reading, first.Splits key ∧
      (∀ other : Reading, other.Splits key → other ≠ first →
        first.field.length < other.field.length) ∧
      readings key = readingsOf key first.field first.marker first.operator := by
  obtain ⟨first, hfirst, hshortest, -⟩ := (splits_whole h).exists_shortest
  refine ⟨first, hfirst, fun other hother hne => ?_, ?_⟩
  · obtain ⟨first', -, hshortest', hbegins⟩ := hother.exists_shortest
    have hsame : first'.field.toList = first.field.toList :=
      (Prod.mk.inj (Option.some.inj (hshortest'.symm.trans hshortest))).1
    exact hfirst.length_lt hother (hsame ▸ hbegins) hne
  · rw [readings, if_pos h, hshortest]
    simp only [String.ofList_toList]

/-- The readings of a key are the first one, the one that takes the marker for a part of the name,
and the one that takes the whole key for a name. -/
theorem readingsOf_eq (key : String) (first : Reading) :
    readingsOf key first.field first.marker first.operator =
      first :: ((first.marker.toList.map fun marker =>
          ⟨first.field ++ marker.spelling, none, first.operator⟩) ++
        first.operator.toList.map fun _ => ⟨key, none, none⟩) := by
  obtain ⟨field, marker, operator⟩ := first
  cases marker <;> cases operator <;> simp [readingsOf, Marker.spelling_eq_word]

end Reading

/-- A key that is no plain identifier is a name as it stands. Every other key is read first at the
split with the strictly shortest name, then with the marker as a part of the name, and then as a
name altogether. All of its readings put the key together again. -/
theorem FilterKey.readings_most_specific (key : String) :
    (Identifier.isPlain key = false ∧ readings key = [⟨key, none, none⟩] ∨
      Identifier.isPlain key = true ∧ ∃ first : Reading, first.Splits key ∧
        (∀ other : Reading, other.Splits key → other ≠ first →
          first.field.length < other.field.length) ∧
        readings key =
          first :: ((first.marker.toList.map fun marker =>
              ⟨first.field ++ marker.spelling, none, first.operator⟩) ++
            first.operator.toList.map fun _ => ⟨key, none, none⟩)) ∧
    ∀ reading ∈ readings key, reading.text = key := by
  cases hplain : Identifier.isPlain key with
  | false =>
    have hreadings : readings key = [⟨key, none, none⟩] := by simp [readings, hplain]
    refine ⟨.inl ⟨rfl, hreadings⟩, ?_⟩
    simp [hreadings, Reading.text]
  | true =>
    obtain ⟨first, hfirst, hshortest, hreadings⟩ := Reading.exists_readings hplain
    rw [Reading.readingsOf_eq] at hreadings
    refine ⟨.inr ⟨rfl, first, hfirst, hshortest, hreadings⟩, ?_⟩
    have htext := hfirst.text
    rw [hreadings]
    obtain ⟨field, marker, operator⟩ := first
    -- Moving the marker or the operator into the name does not change the text.
    cases marker <;> cases operator <;> simp_all [Reading.text]

example : FilterKey.readings "lastConnection_NOT_IN" =
    [⟨"last", some .connection, some "NOT_IN"⟩, ⟨"lastConnection", none, some "NOT_IN"⟩,
      ⟨"lastConnection_NOT_IN", none, none⟩] := by
  decide

namespace FilterKey

/-! ### Keys of aggregate filters -/

/-- The characters after the field of a key of an aggregate filter. -/
def aggregateChars (function comparison : String) : List Char :=
  '_' :: function.toList ++ '_' :: comparison.toList

/-- The functions that are looked for are those that aggregates are spelled with. -/
theorem mem_functions_iff {function : String} {f : AggregateFunction} :
    (function, f) ∈ functions ↔ function ∈ f.spellings := by
  cases f <;> simp [functions, AggregateFunction.spellings]

/-- The comparisons that are looked for are those that are spelled. -/
theorem mem_comparisons_iff {comparison : String} {c : Comparison} :
    (comparison, c) ∈ comparisons ↔ c.spelling? = some comparison := by
  cases c <;> simp [comparisons, orderings, Comparison.spelling?, eq_comm]

/-- What follows a field is read as a function and a comparison only if it is spelled so. -/
theorem aggregateTail?_eq_some {text : List Char} {f : AggregateFunction} {c : Comparison}
    (h : aggregateTail? text = some (f, c)) :
    ∃ function ∈ f.spellings, ∃ comparison, c.spelling? = some comparison ∧
      text = aggregateChars function comparison := by
  obtain ⟨⟨function, f'⟩, hfunction, h⟩ := List.exists_of_findSome?_eq_some h
  obtain ⟨⟨comparison, c'⟩, hcomparison, h⟩ := List.exists_of_findSome?_eq_some h
  simp only [Option.ite_none_right_eq_some, Option.some.injEq, Prod.mk.injEq] at h
  obtain ⟨htext, rfl, rfl⟩ := h
  exact ⟨function, mem_functions_iff.mp hfunction, comparison,
    mem_comparisons_iff.mp hcomparison, htext⟩

/-- What follows the last underscore of a text is determined by it, and so is what precedes it. -/
theorem eq_of_append_underscore {before before' word word' : List Char} (hword : '_' ∉ word)
    (hword' : '_' ∉ word') (h : before ++ '_' :: word = before' ++ '_' :: word') :
    before = before' ∧ word = word' := by
  rcases List.append_eq_append_iff.mp h with ⟨middle, hbefore, hrest⟩ | ⟨middle, hbefore, hrest⟩
  · cases middle with
    | nil => simp_all
    | cons c middle =>
      obtain ⟨-, rfl⟩ := List.cons.inj hrest
      simp at hword
  · cases middle with
    | nil => simp_all
    | cons c middle =>
      obtain ⟨-, rfl⟩ := List.cons.inj hrest
      simp at hword'

/-- Comparisons have no underscore, so that the last one starts the comparison. -/
theorem underscore_notMem_spelling {c : Comparison} {comparison : String}
    (h : c.spelling? = some comparison) : '_' ∉ comparison.toList := by
  cases c <;> cases h <;> decide

/-- No spelling of a function ends in an underscore and another spelling, and every spelling
belongs to one function. -/
theorem eq_of_suffix {f f' : AggregateFunction} {function function' : String}
    (hfunction : function ∈ f.spellings) (hfunction' : function' ∈ f'.spellings)
    (h : ('_' :: function.toList) <:+ ('_' :: function'.toList)) :
    function = function' ∧ f = f' := by
  have hall : ∀ entry ∈ functions, ∀ entry' ∈ functions,
      ('_' :: entry.1.toList) <:+ ('_' :: entry'.1.toList) → entry = entry' := by
    decide +kernel
  exact Prod.mk.inj (hall (function, f) (mem_functions_iff.mpr hfunction) (function', f')
    (mem_functions_iff.mpr hfunction') h)

/-- No two comparisons are spelled alike. -/
theorem eq_of_spelling? {c c' : Comparison} {comparison : String}
    (h : c.spelling? = some comparison) (h' : c'.spelling? = some comparison) : c = c' := by
  have hall : ∀ entry ∈ comparisons, ∀ entry' ∈ comparisons,
      entry.1 = entry'.1 → entry = entry' := by
    decide
  exact (Prod.mk.inj (hall (comparison, c) (mem_comparisons_iff.mpr h) (comparison, c')
    (mem_comparisons_iff.mpr h') rfl)).2

/-- A function with a comparison is not the end of another one, and it can be read in only one
way. The comparison is what follows the last underscore. -/
theorem eq_of_append_aggregateChars {front : List Char} {f f' : AggregateFunction}
    {c c' : Comparison} {function function' comparison comparison' : String}
    (hfunction : function ∈ f.spellings) (hfunction' : function' ∈ f'.spellings)
    (hcomparison : c.spelling? = some comparison) (hcomparison' : c'.spelling? = some comparison')
    (h : front ++ aggregateChars function comparison = aggregateChars function' comparison') :
    front = [] ∧ f = f' ∧ c = c' := by
  rw [aggregateChars, aggregateChars, ← List.append_assoc] at h
  obtain ⟨hfront, hwords⟩ := eq_of_append_underscore (underscore_notMem_spelling hcomparison)
    (underscore_notMem_spelling hcomparison') h
  obtain rfl := String.toList_injective hwords
  obtain ⟨rfl, rfl⟩ := eq_of_suffix hfunction hfunction' ⟨front, hfront⟩
  exact ⟨List.append_left_eq_self.mp hfront, rfl, eq_of_spelling? hcomparison hcomparison'⟩

/-- Every function and every comparison after it are recognized. -/
theorem aggregateTail?_aggregateChars {f : AggregateFunction} {c : Comparison}
    {function comparison : String} (hfunction : function ∈ f.spellings)
    (hcomparison : c.spelling? = some comparison) :
    aggregateTail? (aggregateChars function comparison) = some (f, c) := by
  have hfound : (aggregateTail? (aggregateChars function comparison)).isSome := by
    refine List.findSome?_isSome_iff.mpr
      ⟨(function, f), mem_functions_iff.mpr hfunction, List.findSome?_isSome_iff.mpr
        ⟨(comparison, c), mem_comparisons_iff.mpr hcomparison, ?_⟩⟩
    simp [aggregateChars]
  obtain ⟨⟨f', c'⟩, htail⟩ := Option.isSome_iff_exists.mp hfound
  obtain ⟨function', hfunction', comparison', hcomparison', htext⟩ := aggregateTail?_eq_some htail
  obtain ⟨-, rfl, rfl⟩ :=
    @eq_of_append_aggregateChars [] _ _ _ _ _ _ _ _ hfunction hfunction' hcomparison hcomparison'
      htext
  exact htail

/-- The key of a plain name, a function and a comparison is split behind the name. -/
theorem shortestSplit_aggregate {field : List Char} (hfield : field ≠ [])
    {f : AggregateFunction} {c : Comparison} {function comparison : String}
    (hfunction : function ∈ f.spellings) (hcomparison : c.spelling? = some comparison) :
    shortestSplit aggregateTail? (field ++ aggregateChars function comparison) =
      some (field, f, c) := by
  obtain ⟨shorter, others, ⟨f', c'⟩, -, hsplit, htail, hshortest⟩ :=
    shortestSplit_before hfield (aggregateTail?_aggregateChars hfunction hcomparison)
  obtain ⟨function', hfunction', comparison', hcomparison', htext⟩ := aggregateTail?_eq_some htail
  obtain ⟨rfl, rfl, rfl⟩ :=
    eq_of_append_aggregateChars hfunction hfunction' hcomparison hcomparison' htext
  rw [hshortest, hsplit, List.append_nil]

/-- A function and a comparison are spelled with characters of names. -/
theorem isPart_of_mem_aggregateChars {f : AggregateFunction} {c : Comparison}
    {function comparison : String} (hfunction : function ∈ f.spellings)
    (hcomparison : c.spelling? = some comparison) :
    ∀ char ∈ aggregateChars function comparison, Identifier.isPart char = true := by
  have hfunctions : functions.all fun entry => entry.1.toList.all Identifier.isPart := by
    decide +kernel
  have hcomparisons : comparisons.all fun entry => entry.1.toList.all Identifier.isPart := by
    decide
  refine List.forall_mem_append.mpr ⟨List.forall_mem_cons.mpr ⟨by decide, ?_⟩,
    List.forall_mem_cons.mpr ⟨by decide, ?_⟩⟩
  · exact List.all_eq_true.mp
      (List.all_eq_true.mp hfunctions (function, f) (mem_functions_iff.mpr hfunction))
  · exact List.all_eq_true.mp
      (List.all_eq_true.mp hcomparisons (comparison, c) (mem_comparisons_iff.mpr hcomparison))

/-- The key of an aggregate is the field, the function and the comparison. -/
theorem toList_aggregateKey (field function comparison : String) :
    (field ++ "_" ++ function ++ "_" ++ comparison).toList =
      field.toList ++ aggregateChars function comparison := by
  simp [aggregateChars]

/-- A key that is read has been put together from what it is read as. -/
theorem spelled_of_aggregate? {key : String} {parsed : AggregateKey}
    (h : aggregate? key = some parsed) :
    Identifier.isPlain parsed.field = true ∧ ∃ function ∈ parsed.function.spellings,
      ∃ comparison, parsed.comparison.spelling? = some comparison ∧
        key = parsed.field ++ "_" ++ function ++ "_" ++ comparison := by
  obtain ⟨field, f, c⟩ := parsed
  rw [aggregate?, Option.ite_none_right_eq_some] at h
  obtain ⟨hplain, h⟩ := h
  obtain ⟨⟨before, f', c'⟩, hsplit, heq⟩ := Option.map_eq_some_iff.mp h
  obtain ⟨rfl, rfl, rfl⟩ := AggregateKey.mk.inj heq
  obtain ⟨hbefore, rest, hkey, haccept⟩ := eq_append_of_shortestSplit hsplit
  obtain ⟨function, hfunction, comparison, hcomparison, rfl⟩ := aggregateTail?_eq_some haccept
  refine ⟨Identifier.isPlain_beginning hkey hbefore hplain, function, hfunction, comparison,
    hcomparison, ?_⟩
  apply String.toList_injective
  rw [hkey, toList_aggregateKey, String.toList_ofList]

/-- A key that is put together from its parts is read as these. -/
theorem aggregate?_spelled {field function comparison : String} {f : AggregateFunction}
    {c : Comparison} (hplain : Identifier.isPlain field = true)
    (hfunction : function ∈ f.spellings) (hcomparison : c.spelling? = some comparison) :
    aggregate? (field ++ "_" ++ function ++ "_" ++ comparison) = some ⟨field, f, c⟩ := by
  have hkey := toList_aggregateKey field function comparison
  have hfield : field.toList ≠ [] := by simpa using Identifier.ne_empty_of_isPlain hplain
  have hplainKey := Identifier.isPlain_of_begins hkey hplain
    (isPart_of_mem_aggregateChars hfunction hcomparison)
  rw [aggregate?, if_pos hplainKey, hkey, shortestSplit_aggregate hfield hfunction hcomparison]
  simp

/-- A key of an aggregate filter is read as a field, a function and a comparison exactly if it is
put together from the plain name of the field, a spelling of the function and the spelling of the
comparison. So a name may end in any of these words. -/
theorem aggregateKey_iff_spelled (key : String) (parsed : AggregateKey) :
    aggregate? key = some parsed ↔
      Identifier.isPlain parsed.field = true ∧ ∃ function ∈ parsed.function.spellings,
        ∃ comparison, parsed.comparison.spelling? = some comparison ∧
          key = parsed.field ++ "_" ++ function ++ "_" ++ comparison := by
  constructor
  · exact spelled_of_aggregate?
  · rintro ⟨hplain, function, hfunction, comparison, hcomparison, rfl⟩
    exact aggregate?_spelled hplain hfunction hcomparison

example : aggregate? "a_SUM_GT_AVERAGE_LENGTH_SHORTEST_LTE" =
    some ⟨"a_SUM_GT_AVERAGE_LENGTH", .shortestLength, .lessOrEqual⟩ := by
  decide +kernel

end FilterKey

end GraphRead
