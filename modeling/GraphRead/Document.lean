import GraphRead.Json.Basic

/-!
# Documents

What a data format has to offer so that records can be read from it: records
with known keys, lists, texts, flags, counts and names of enumerations. The
readers of settings and of schema definitions are written once against this
interface and serve every format.
-/

namespace GraphRead

/-- A format whose values of type `α` can be read as records, lists and scalars. -/
class Document (α : Type) where
  /-- The values under the known keys of a record. Unknown keys are ignored; a repeated known key
  is refused. -/
  record? : List String → α → Option (String → Option α)
  /-- The items of a list. -/
  list? : α → Option (List α)
  /-- A text. -/
  text? : α → Option String
  /-- A truth value. -/
  flag? : α → Option Bool
  /-- A natural number below `2 ^ 64`. -/
  count? : α → Option Nat
  /-- One of the names of an enumeration, still to be looked up. -/
  name? : α → Option String
  /-- Whether the value stands for an absent one. -/
  isAbsent : α → Bool
  /-- A bound on how deeply records and lists are nested. -/
  depth : α → Nat

/-- A format that also holds free-form values. -/
class FreeDocument (α : Type) extends Document α where
  /-- A free-form value. -/
  value? : α → Option Json
  /-- The values under the known keys of a record that is written with keys. Unlike in other
  records, what stands under unknown keys has to have a value as well. -/
  openRecord? : List String → α → Option (String → Option α)

namespace Document

/-- Look-up among entries, provided that no known key is repeated. -/
def keyed {α : Type} (known : List String) (entries : List (String × α)) :
    Option (String → Option α) :=
  if known.all fun key => entries.countP (·.1 = key) ≤ 1 then
    some fun key => entries.lookup key
  else none

/-- Look-up by position: the items belong to the known keys in order, and the last keys may be
left out. -/
def positional {α : Type} (known : List String) (items : List α) : Option (String → Option α) :=
  if items.length ≤ known.length then some fun key => (known.zip items).lookup key else none

variable {α β : Type} [Document α]

/-- A field that has to be there. -/
def required (read : α → Option β) (value : Option α) : Option β := value.bind read

/-- A field that may be missing, with the value it has then. -/
def defaulted (read : α → Option β) (default : β) : Option α → Option β
  | none => some default
  | some value => read value

/-- A field that may be missing or absent. -/
def optional (read : α → Option β) : Option α → Option (Option β)
  | none => some none
  | some value => if isAbsent value then some none else (read value).map some

/-- A list whose items are all read in the same way. -/
def listOf (read : α → Option β) (value : α) : Option (List β) := (list? value).bind (·.mapM read)

end Document

/-- The largest count that a document may hold is below this bound. -/
def countBound : Nat := Nat.pow 2 64

namespace Json

/-- A count: a non-negative integer of 64 bits. -/
def count? : Json → Option Nat
  | .number (.integer value) =>
    if 0 ≤ value ∧ value.toNat < countBound then some value.toNat else none
  | _ => none

/-- The name of an enumeration, written as a string or as an object with the name as its only key
and nothing under it. -/
def name? : Json → Option String
  | .string name => some name
  | .object [(name, .null)] => some name
  | _ => none

/-- JSON records are objects, or arrays of their fields in order. -/
instance : FreeDocument Json where
  record? known
    | .object entries => Document.keyed known entries
    | .array items => Document.positional known items
    | _ => none
  list?
    | .array items => some items
    | _ => none
  text?
    | .string text => some text
    | _ => none
  flag?
    | .bool flag => some flag
    | _ => none
  count? := count?
  name? := name?
  isAbsent := isNull
  depth := Json.depth
  value? := some
  openRecord? known
    | .object entries => Document.keyed known entries
    | _ => none

end Json

end GraphRead
