import GraphRead.Yaml.Node
import GraphRead.Yaml.Token

/-!
# Reading YAML

The node of a document from its tokens. The parts of a list or map may be left
out: an item, a key or a value that is not written is the node in which nothing
was written.
-/

namespace GraphRead.Yaml

/-- The tokens before which an item of a block list was left out. A list in the column of the key
it belongs to has no end of its own, so the next key or value ends it too. -/
def Token.endsItem (ownColumn : Bool) : Token → Bool
  | .item | .blockEnd => true
  | .key | .value => !ownColumn
  | _ => false

/-- The tokens before which a key or value of a block map was left out. -/
def Token.endsPart : Token → Bool
  | .key | .value | .blockEnd => true
  | _ => false

/-- The tokens before which the key of an entry inside braces was left out. -/
def Token.endsBraceKey : Token → Bool
  | .value | .comma | .closeBrace => true
  | _ => false

/-- The tokens before which the value of an entry inside braces was left out. -/
def Token.endsBraceValue : Token → Bool
  | .comma | .closeBrace => true
  | _ => false

/-- The tokens before which the key of an entry inside brackets was left out. -/
def Token.endsBracketKey : Token → Bool
  | .value | .comma | .closeBracket => true
  | _ => false

/-- The tokens before which the value of an entry inside brackets was left out. -/
def Token.endsBracketValue : Token → Bool
  | .comma | .closeBracket => true
  | _ => false

mutual
/-- A node and the tokens after it. Block lists and maps may stand only where `block` says so, and
items in the column of a key only where `items` does. -/
def node? : Nat → (block items : Bool) → List Token → Option (Yaml × List Token)
  | 0, _, _, _ => none
  | steps + 1, block, items, tokens =>
    match tokens with
    | .scalar plain text :: rest => some (.scalar plain text, rest)
    | .openBracket :: rest =>
      (bracketItems? steps rest).map fun (items, rest) => (.list items, rest)
    | .openBrace :: rest =>
      (braceEntries? steps rest).map fun (entries, rest) => (.map entries, rest)
    | .blockList :: rest =>
      if block then (blockItems? steps true rest).map fun (items, rest) => (.list items, rest)
      else none
    | .blockMap :: rest =>
      if block then (blockEntries? steps rest).map fun (entries, rest) => (.map entries, rest)
      else none
    | .item :: _ =>
      if items then (blockItems? steps false tokens).map fun (items, rest) => (.list items, rest)
      else none
    | _ => none

/-- A node that may be left out before some tokens. -/
def nodeUnless? : Nat → (ends : Token → Bool) → (block items : Bool) → List Token →
    Option (Yaml × List Token)
  | 0, _, _, _, _ => none
  | _ + 1, _, _, _, [] => none
  | steps + 1, ends, block, items, token :: rest =>
    if ends token then some (nothing, token :: rest) else node? steps block items (token :: rest)

/-- The value of an entry, which may be left out together with its colon. -/
def valueUnless? : Nat → (ends : Token → Bool) → (block : Bool) → List Token →
    Option (Yaml × List Token)
  | 0, _, _, _ => none
  | steps + 1, ends, block, tokens =>
    match tokens with
    | .value :: rest => nodeUnless? steps ends block block rest
    | _ => some (nothing, tokens)

/-- The items of a block list. One in the column of a key ends before any other token. -/
def blockItems? : Nat → (ownColumn : Bool) → List Token → Option (List Yaml × List Token)
  | 0, _, _ => none
  | steps + 1, ownColumn, tokens =>
    match tokens with
    | .item :: rest => do
      let (item, rest) ← nodeUnless? steps (Token.endsItem ownColumn) true false rest
      let (items, rest) ← blockItems? steps ownColumn rest
      return (item :: items, rest)
    | .blockEnd :: rest => some ([], if ownColumn then rest else tokens)
    | _ => if ownColumn then none else some ([], tokens)

/-- The entries of a block map. -/
def blockEntries? : Nat → List Token → Option (List (Yaml × Yaml) × List Token)
  | 0, _ => none
  | steps + 1, tokens =>
    match tokens with
    | .key :: rest => do
      let (key, rest) ← nodeUnless? steps Token.endsPart true true rest
      let (value, rest) ← valueUnless? steps Token.endsPart true rest
      let (entries, rest) ← blockEntries? steps rest
      return ((key, value) :: entries, rest)
    | .blockEnd :: rest => some ([], rest)
    | _ => none

/-- The items of a list in brackets. An item may be a single entry of a map. Where the key of such
an entry is left out, the token after its question mark is passed over. -/
def bracketItems? : Nat → List Token → Option (List Yaml × List Token)
  | 0, _ => none
  | steps + 1, tokens =>
    match tokens with
    | .closeBracket :: rest => some ([], rest)
    | .key :: token :: rest => do
      let (key, rest) ←
        if token.endsBracketKey then pure (nothing, rest)
        else node? steps false false (token :: rest)
      let (value, rest) ← valueUnless? steps Token.endsBracketValue false rest
      let (items, rest) ← moreItems? steps rest
      return (.map [(key, value)] :: items, rest)
    | _ => do
      let (item, rest) ← node? steps false false tokens
      let (items, rest) ← moreItems? steps rest
      return (item :: items, rest)

/-- The items of a list in brackets after one of them. -/
def moreItems? : Nat → List Token → Option (List Yaml × List Token)
  | 0, _ => none
  | steps + 1, tokens =>
    match tokens with
    | .closeBracket :: rest => some ([], rest)
    | .comma :: rest => bracketItems? steps rest
    | _ => none

/-- The entries of a map in braces. A node that is not a key has nothing as its value. -/
def braceEntries? : Nat → List Token → Option (List (Yaml × Yaml) × List Token)
  | 0, _ => none
  | steps + 1, tokens =>
    match tokens with
    | .closeBrace :: rest => some ([], rest)
    | .key :: rest => do
      let (key, rest) ← nodeUnless? steps Token.endsBraceKey false false rest
      let (value, rest) ← valueUnless? steps Token.endsBraceValue false rest
      let (entries, rest) ← moreEntries? steps rest
      return ((key, value) :: entries, rest)
    | _ => do
      let (key, rest) ← node? steps false false tokens
      let (entries, rest) ← moreEntries? steps rest
      return ((key, nothing) :: entries, rest)

/-- The entries of a map in braces after one of them. -/
def moreEntries? : Nat → List Token → Option (List (Yaml × Yaml) × List Token)
  | 0, _ => none
  | steps + 1, tokens =>
    match tokens with
    | .closeBrace :: rest => some ([], rest)
    | .comma :: rest => braceEntries? steps rest
    | _ => none
end

/-- The tokens before which the node of a document was left out. -/
def Token.endsDocument : Token → Bool
  | .documentStart | .documentEnd => true
  | _ => false

/-- The node of a document and the tokens after it. -/
def documentNode? (tokens : List Token) : Option (Yaml × List Token) :=
  let steps := 4 * tokens.length + 4
  match tokens with
  | [] => some (nothing, [])
  | .documentStart :: rest =>
    if rest.head?.all Token.endsDocument then some (nothing, rest)
    else node? steps true false rest
  | _ => node? steps true false tokens

/-- The node written in a text of one document. A text without content is a document in which
nothing was written. -/
def parse? (text : String) : Option Yaml := do
  let tokens ← tokens? text
  let (node, rest) ← documentNode? tokens
  if rest.all (· = .documentEnd) then return node else none

end GraphRead.Yaml
