import GraphRead.Document
import GraphRead.Json.Source

/-!
# Parts of a JSON text

Records are read from a JSON text part by part. What belongs to an unknown key
is passed over without a look at the values in it, and does not count towards
the nesting.
-/

namespace GraphRead.Json

/-- A part of a text, with the number of arrays and objects that may still be opened in it. -/
structure Part where
  source : Source
  room : Nat
deriving Repr

/-- The deepest nesting that is read. -/
def maxDepth : Nat := 127

/-- A whole text as a part of itself. -/
def Source.whole (source : Source) : Part := ⟨source, maxDepth⟩

namespace Part

/-- The entries of an object, if it may still be opened. -/
def entries? : Part → Option (List (String × Part))
  | ⟨.object entries, room + 1⟩ =>
    entries.mapM fun (key, value) => key.map fun key => (key, ⟨value, room⟩)
  | _ => none

/-- The items of an array, if it may still be opened. -/
def items? : Part → Option (List Part)
  | ⟨.array items, room + 1⟩ => some (items.map (⟨·, room⟩))
  | _ => none

/-- The value of a part. -/
def value? (part : Part) : Option Json := part.source.value? part.room

/-- The value of a part that is not an array or object. -/
def scalar? : Part → Option Json
  | ⟨.array _, _⟩ => none
  | ⟨.object _, _⟩ => none
  | part => part.value?

/-- The name of an enumeration, written as a string or as an object with the name as its only key
and nothing under it. -/
def name? : Part → Option String
  | ⟨.string name, _⟩ => name
  | ⟨.object [(name, .null)], _ + 1⟩ => name
  | _ => none

/-- Parts of a JSON text are read in the same way as JSON values. -/
instance : FreeDocument Part where
  record? known part :=
    match part.source with
    | .array _ => part.items?.bind (Document.positional known)
    | _ => part.entries?.bind (Document.keyed known)
  list? := items?
  text? part := part.scalar?.bind Document.text?
  flag? part := part.scalar?.bind Document.flag?
  count? part := part.scalar?.bind Document.count?
  name? := name?
  isAbsent part := part.scalar?.any Document.isAbsent
  depth part := part.source.depth
  value? := value?
  openRecord? known part := do
    let entries ← part.entries?
    if entries.all fun (_, value) => value.value?.isSome then Document.keyed known entries else none

end Part

end GraphRead.Json
