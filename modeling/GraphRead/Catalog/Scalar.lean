/-!
# Scalar types and filter operators

The types of stored properties, the operators by which they can be filtered, and
the operators that a type allows unless a field lists its own.
-/

namespace GraphRead

/-- The type of a stored property. -/
inductive ScalarType where
  | id
  | string
  | int
  | bigInt
  | float
  | boolean
  | date
  | time
  | localTime
  | dateTime
  | localDateTime
  | duration
deriving DecidableEq, Repr

namespace ScalarType

/-- All scalar types. -/
def all : List ScalarType :=
  [id, string, int, bigInt, float, boolean, date, time, localTime, dateTime, localDateTime,
    duration]

/-- The name of a scalar type in a schema. -/
def name : ScalarType → String
  | id => "ID"
  | string => "String"
  | int => "Int"
  | bigInt => "BigInt"
  | float => "Float"
  | boolean => "Boolean"
  | date => "Date"
  | time => "Time"
  | localTime => "LocalTime"
  | dateTime => "DateTime"
  | localDateTime => "LocalDateTime"
  | duration => "Duration"

/-- The scalar type of a name. -/
def ofName? (name : String) : Option ScalarType := all.find? (·.name = name)

/-- Types whose values are texts. -/
def isStringLike : ScalarType → Bool
  | id | string => true
  | _ => false

/-- Types whose values are numbers. -/
def isNumeric : ScalarType → Bool
  | int | bigInt | float => true
  | _ => false

/-- Types whose values are ordered. -/
def isOrderable : ScalarType → Bool
  | boolean => false
  | _ => true

end ScalarType

/-- An operator that a filter key may name. -/
inductive FilterOperator where
  | differs
  | oneOf
  | notOneOf
  | less
  | lessOrEqual
  | greater
  | greaterOrEqual
  | contains
  | notContains
  | startsWith
  | notStartsWith
  | endsWith
  | notEndsWith
  | matching
  | includes
  | notIncludes
deriving DecidableEq, Repr

namespace FilterOperator

/-- All filter operators. -/
def all : List FilterOperator :=
  [differs, oneOf, notOneOf, less, lessOrEqual, greater, greaterOrEqual, contains, notContains,
    startsWith, notStartsWith, endsWith, notEndsWith, matching, includes, notIncludes]

/-- The suffix of an operator in a filter key. -/
def suffix : FilterOperator → String
  | differs => "NOT"
  | oneOf => "IN"
  | notOneOf => "NOT_IN"
  | less => "LT"
  | lessOrEqual => "LTE"
  | greater => "GT"
  | greaterOrEqual => "GTE"
  | contains => "CONTAINS"
  | notContains => "NOT_CONTAINS"
  | startsWith => "STARTS_WITH"
  | notStartsWith => "NOT_STARTS_WITH"
  | endsWith => "ENDS_WITH"
  | notEndsWith => "NOT_ENDS_WITH"
  | matching => "MATCHES"
  | includes => "INCLUDES"
  | notIncludes => "NOT_INCLUDES"

/-- The operator of a suffix. -/
def ofSuffix? (text : String) : Option FilterOperator := all.find? (·.suffix = text)

/-- Operators that are the negation of another comparison. -/
def isNegated : FilterOperator → Bool
  | differs | notOneOf | notContains | notStartsWith | notEndsWith | notIncludes => true
  | _ => false

/-- The operators of a type: lists test membership, texts also their parts, ordered types their
order, and the rest only inequality. -/
def defaults (type : ScalarType) (isList : Bool) : List FilterOperator :=
  if isList then [differs, includes, notIncludes]
  else if type.isStringLike then
    [differs, oneOf, notOneOf, contains, notContains, startsWith, notStartsWith, endsWith,
      notEndsWith, matching, less, lessOrEqual, greater, greaterOrEqual]
  else if type.isOrderable then
    [differs, oneOf, notOneOf, less, lessOrEqual, greater, greaterOrEqual]
  else [differs]

end FilterOperator

end GraphRead
