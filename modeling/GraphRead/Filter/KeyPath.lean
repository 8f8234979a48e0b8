import GraphRead.Text.Lines

/-!
# Key paths

The place of a value inside a filter: the keys that lead to it, with the indices
of list members written onto the key of the list. A path may start at a location
that is shown but not counted.
-/

namespace GraphRead

/-- A path of keys. The first `base` segments are a location and do not count as depth. -/
structure KeyPath where
  segments : List String
  base : Nat
deriving DecidableEq, Repr

namespace KeyPath

/-- The path of the whole filter. -/
def root : KeyPath := ⟨[], 0⟩

/-- The path of a filter that stands at a location. -/
def located (location : String) : KeyPath := ⟨[location], 1⟩

/-- The path of the value under a key. -/
def key (path : KeyPath) (key : String) : KeyPath :=
  { path with segments := path.segments ++ [key] }

/-- The segments with an index written onto the last of them. -/
def indexed (index : Nat) : List String → List String
  | [] => ["[" ++ toString index ++ "]"]
  | [last] => [last ++ "[" ++ toString index ++ "]"]
  | segment :: next :: rest => segment :: indexed index (next :: rest)

/-- The path of a member of a list. -/
def index (path : KeyPath) (index : Nat) : KeyPath :=
  { path with segments := indexed index path.segments }

/-- The number of keys below the location. -/
def depth (path : KeyPath) : Nat := path.segments.length - path.base

/-- The path as text. -/
def text (path : KeyPath) : String :=
  match path.segments with
  | [] => "<root>"
  | segments => Text.join "." segments

end KeyPath

end GraphRead
