import GraphRead.Cypher.Tree
import GraphRead.Text.Identifier

/-!
# Filter keys

A filter key names a field, perhaps with a marker for connections or aggregates,
and perhaps with an operator after an underscore. Since a field may itself end
in such words, a key has several readings, from the shortest field to the
longest. Keys of aggregate filters name a field, a function and a comparison.
-/

namespace GraphRead

/-- How the members of a list are joined. -/
inductive Junction where
  | all
  | any
deriving DecidableEq, Repr

/-- The junction that a key asks for. -/
def Junction.ofKey? : String → Option Junction
  | "AND" => some all
  | "OR" => some any
  | _ => none

/-- What part of a relationship a key is about. -/
inductive Marker where
  | aggregate
  | connection
deriving DecidableEq, Repr

/-- The word of a marker. -/
def Marker.word : Marker → String
  | aggregate => "Aggregate"
  | connection => "Connection"

/-- How many related nodes have to satisfy a filter. -/
inductive Quantifier where
  | any
  | no
  | every
  | one
deriving DecidableEq, Repr

/-- The quantifier of an operator. -/
def Quantifier.ofSuffix? : String → Option Quantifier
  | "SOME" => some any
  | "NONE" | "NOT" => some no
  | "ALL" => some every
  | "SINGLE" => some one
  | _ => none

/-- A way to read a filter key. -/
structure Reading where
  field : String
  marker : Option Marker
  operator : Option String
deriving DecidableEq, Repr

/-- A function over the related nodes or relationships. -/
inductive AggregateFunction where
  | average
  | sum
  | min
  | max
  | shortestLength
  | longestLength
  | averageLength
deriving DecidableEq, Repr

/-- What a key of an aggregate filter says. -/
structure AggregateKey where
  field : String
  function : AggregateFunction
  comparison : Comparison
deriving DecidableEq, Repr

namespace FilterKey

/-- The operators that a filter key may end in. -/
def operators : List String :=
  ["NOT_IN", "NOT_INCLUDES", "NOT_CONTAINS", "NOT_STARTS_WITH", "NOT_ENDS_WITH", "NOT", "IN",
    "INCLUDES", "MATCHES", "CONTAINS", "STARTS_WITH", "ENDS_WITH", "LTE", "LT", "GTE", "GT", "ALL",
    "NONE", "SINGLE", "SOME"]

/-- The operator after the field and the marker: nothing, or one after an underscore. -/
def operator? (text : List Char) : Option (Option String) :=
  match text with
  | [] => some none
  | _ => (operators.find? fun operator => text = '_' :: operator.toList).map some

/-- The marker and the operator after a field. -/
def tail? (text : List Char) : Option (Option Marker × Option String) :=
  match Marker.aggregate.word.toList.isPrefixOf? text with
  | some rest => (operator? rest).map fun operator => (some .aggregate, operator)
  | none =>
    match Marker.connection.word.toList.isPrefixOf? text with
    | some rest => (operator? rest).map fun operator => (some .connection, operator)
    | none => (operator? text).map fun operator => (none, operator)

/-- The shortest beginning of a text, of at least one character, after which the rest is
accepted. -/
def shortestSplit {β : Type} (accept : List Char → Option β) :
    List Char → Option (List Char × β)
  | [] => none
  | c :: rest =>
    match accept rest with
    | some b => some ([c], b)
    | none => (shortestSplit accept rest).map fun (before, b) => (c :: before, b)

/-- The readings that follow from the most specific one: the marker may belong to the field, and
so may the operator. -/
def readingsOf (key : String) (field : String) (marker : Option Marker)
    (operator : Option String) : List Reading :=
  let withMarker :=
    match marker with
    | some marker => [⟨field ++ marker.word, none, operator⟩]
    | none => []
  let whole := if operator.isSome then [⟨key, none, none⟩] else []
  ⟨field, marker, operator⟩ :: (withMarker ++ whole)

/-- The readings of a filter key, the most specific one first. A key that is no plain identifier
is the name of a field as it stands. -/
def readings (key : String) : List Reading :=
  if Identifier.isPlain key then
    match shortestSplit tail? key.toList with
    | some (field, marker, operator) => readingsOf key (String.ofList field) marker operator
    | none => [⟨key, none, none⟩]
  else [⟨key, none, none⟩]

/-- The spellings of the aggregate functions. -/
def functions : List (String × AggregateFunction) :=
  [("AVERAGE_LENGTH", .averageLength), ("SHORTEST_LENGTH", .shortestLength),
    ("LONGEST_LENGTH", .longestLength), ("AVERAGE", .average), ("SUM", .sum), ("MIN", .min),
    ("MAX", .max), ("SHORTEST", .shortestLength), ("LONGEST", .longestLength)]

/-- The spellings of the comparisons that differ from equality. -/
def orderings : List (String × Comparison) :=
  [("GTE", .greaterOrEqual), ("GT", .greater), ("LTE", .lessOrEqual), ("LT", .less)]

/-- The spellings of the comparisons of aggregates. -/
def comparisons : List (String × Comparison) := ("EQUAL", .equal) :: orderings

/-- The function and the comparison after a field. -/
def aggregateTail? (text : List Char) : Option (AggregateFunction × Comparison) :=
  functions.findSome? fun (function, f) =>
    comparisons.findSome? fun (comparison, c) =>
      if text = '_' :: function.toList ++ '_' :: comparison.toList then some (f, c) else none

/-- The parts of a key of an aggregate filter. -/
def aggregate? (key : String) : Option AggregateKey :=
  if Identifier.isPlain key then
    (shortestSplit aggregateTail? key.toList).map fun (field, function, comparison) =>
      ⟨String.ofList field, function, comparison⟩
  else none

/-- The comparison that a key for the number of related nodes asks for. -/
def count? (key : String) : Option Comparison :=
  if key = "count" then some .equal
  else orderings.findSome? fun (suffix, c) => if key = "count_" ++ suffix then some c else none

end FilterKey

end GraphRead
