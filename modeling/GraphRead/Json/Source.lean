import GraphRead.Json.Basic

/-!
# JSON as written

What a JSON text says before it is decided which of it is used. A number beyond
the double-precision format and a string with half a surrogate pair are well
written, but stand for no value: they do no harm where nobody looks at them.
-/

namespace GraphRead.Json

/-- A JSON text, taken apart. -/
inductive Source where
  | null
  | bool (value : Bool)
  | number (value : Option Number)
  | string (value : Option String)
  | array (items : List Source)
  | object (entries : List (Option String × Source))
deriving Repr, Inhabited

namespace Source

mutual
/-- The value of a text in which at most `room` arrays and objects are inside one another. -/
def value? : (room : Nat) → Source → Option Json
  | _, .null => some .null
  | _, .bool value => some (.bool value)
  | _, .number value => value.map .number
  | _, .string value => value.map .string
  | 0, .array _ => none
  | room + 1, .array items => (values? room items).map .array
  | 0, .object _ => none
  | room + 1, .object entries => (entryValues? room entries).map .object
termination_by structural _ source => source

/-- The values of items. -/
def values? (room : Nat) : List Source → Option (List Json)
  | [] => some []
  | item :: items => do
    let item ← value? room item
    let items ← values? room items
    return item :: items
termination_by structural items => items

/-- The entries with their values. -/
def entryValues? (room : Nat) : List (Option String × Source) → Option (List (String × Json))
  | [] => some []
  | (key, value) :: rest => do
    let key ← key
    let value ← value? room value
    let rest ← entryValues? room rest
    return (key, value) :: rest
termination_by structural rest => rest
end

mutual
/-- How deeply arrays and objects are nested in a text. -/
def depth : Source → Nat
  | .array items => depthItems items + 1
  | .object entries => depthEntries entries + 1
  | _ => 0
termination_by structural source => source

/-- The greatest depth among the items. -/
def depthItems : List Source → Nat
  | [] => 0
  | item :: items => max (depth item) (depthItems items)
termination_by structural items => items

/-- The greatest depth among the values of the entries. -/
def depthEntries : List (Option String × Source) → Nat
  | [] => 0
  | (_, value) :: rest => max (depth value) (depthEntries rest)
termination_by structural rest => rest
end

end Source

end GraphRead.Json
