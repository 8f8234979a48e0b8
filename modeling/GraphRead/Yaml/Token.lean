import GraphRead.Yaml.Scalar

/-!
# YAML tokens

The tokens of a YAML text. Columns decide where block lists and maps start and
end, so that the tokens hold the whole structure. Whether a token is the key of
a map shows only at the colon behind it; until then it is a candidate, and the
tokens that belong in front of it are put there afterwards.
-/

namespace GraphRead.Yaml

/-- A token of a YAML text. -/
inductive Token where
  | documentStart
  | documentEnd
  /-- A block list starts. -/
  | blockList
  /-- A block map starts. -/
  | blockMap
  /-- The innermost block list or map ends. -/
  | blockEnd
  | openBracket
  | closeBracket
  | openBrace
  | closeBrace
  | comma
  /-- An item of a block list follows. -/
  | item
  /-- A key of a map follows. -/
  | key
  /-- The value of a key follows. -/
  | value
  | scalar (plain : Bool) (text : String)
deriving DecidableEq, Repr

/-- A position in a text. -/
structure Position where
  index : Nat
  line : Nat
  column : Nat
deriving DecidableEq, Repr

/-- The position after a character. -/
def Position.after (position : Position) (c : Char) : Position :=
  if isBreak c then ⟨position.index + 1, position.line + 1, 0⟩
  else ⟨position.index + 1, position.line, position.column + 1⟩

/-- A token that turns out to be a key if a colon comes behind it. -/
structure Candidate where
  /-- Whether nothing but a key can stand here. -/
  required : Bool
  /-- The number of tokens before it. -/
  number : Nat
  position : Position

/-- The largest distance of a key to its colon. -/
def maxKeyLength : Nat := 1024

/-- Whether a position is too far behind a candidate for its colon: a key stands on one line. -/
def Candidate.isStale (candidate : Candidate) (position : Position) : Bool :=
  candidate.position.line < position.line
    || candidate.position.index + maxKeyLength < position.index

/-- The candidate that is left at a position. A required one cannot go stale. -/
def Candidate.kept? (position : Position) : Option Candidate → Option (Option Candidate)
  | none => some none
  | some candidate =>
    if !candidate.isStale position then some (some candidate)
    else if candidate.required then none
    else some none

/-- What is known when part of a text has been split into tokens. -/
structure Scan where
  /-- The length of the whole text. -/
  size : Nat
  /-- The text that is left. -/
  text : List Char
  position : Position
  /-- The column right of that of the innermost block list or map. -/
  margin : Nat
  /-- The margins of the lists and maps around it. -/
  outer : List Nat
  /-- Whether a key may stand at the next token. -/
  keyAllowed : Bool
  /-- The candidate inside the innermost brackets. -/
  candidate : Option Candidate
  /-- The candidates outside of each pair of brackets that is open. -/
  enclosing : List (Option Candidate)
  /-- The tokens so far, the last one first. -/
  tokens : List Token
  /-- The number of tokens so far. -/
  count : Nat

/-- The start of a text. -/
def Scan.start (text : List Char) : Scan :=
  ⟨text.length, text, ⟨0, 0, 0⟩, 0, [], true, none, [], [], 0⟩

namespace Scan

/-- Whether brackets are open. -/
def flow (scan : Scan) : Bool := !scan.enclosing.isEmpty

/-- One token more. -/
def emit (scan : Scan) (token : Token) : Scan :=
  { scan with tokens := token :: scan.tokens, count := scan.count + 1 }

/-- The given tokens behind the first `number` ones. -/
def insert (scan : Scan) (number : Nat) (tokens : List Token) : Scan :=
  let later := scan.count - number
  { scan with
    tokens := scan.tokens.take later ++ tokens.reverse ++ scan.tokens.drop later
    count := scan.count + tokens.length }

/-- The given number of characters is passed. -/
def pass (scan : Scan) (length : Nat) : Scan :=
  { scan with
    text := scan.text.drop length
    position := (scan.text.take length).foldl Position.after scan.position }

/-- The next token after blanks, comments and line breaks, and whether a key may stand there.
Outside of brackets a line break allows a key, and where a key may stand tabs cannot indent. -/
def toToken (flow : Bool) :
    (keyAllowed comment : Bool) → Position → List Char → Bool × Position × List Char
  | keyAllowed, _, position, [] => (keyAllowed, position, [])
  | keyAllowed, comment, position, c :: rest =>
    if isBreak c then toToken flow (keyAllowed || !flow) false (position.after c) rest
    else if comment || c = ' ' || (c = '\t' && (flow || !keyAllowed)) then
      toToken flow keyAllowed comment (position.after c) rest
    else if c = '#' then toToken flow keyAllowed true (position.after c) rest
    else (keyAllowed, position, c :: rest)

/-- The margin, the margins around it and the number of lists and maps that end, if those go on
whose margin is at most the limit. -/
def closed (limit : Nat) : (margin : Nat) → (outer : List Nat) → Nat × List Nat × Nat
  | margin, [] => (margin, [], 0)
  | margin, next :: outer =>
    if limit < margin then
      let (margin, outer, ended) := closed limit next outer
      (margin, outer, ended + 1)
    else (margin, next :: outer, 0)

/-- Block lists and maps end whose margin is beyond the limit. Inside brackets none of them ends. -/
def close (scan : Scan) (limit : Nat) : Scan :=
  if scan.flow then scan
  else
    let (margin, outer, ended) := closed limit scan.margin scan.outer
    { scan with
      margin
      outer
      tokens := List.replicate ended .blockEnd ++ scan.tokens
      count := scan.count + ended }

/-- The state at the next token. -/
def advance? (scan : Scan) : Option Scan := do
  let (keyAllowed, position, text) :=
    toToken scan.flow scan.keyAllowed false scan.position scan.text
  let candidate ← Candidate.kept? position scan.candidate
  let enclosing ← scan.enclosing.mapM (Candidate.kept? position)
  return { scan with text, position, keyAllowed, candidate, enclosing }.close (position.column + 1)

/-- Whether a token in a column would start a block list or map. -/
def deepens (scan : Scan) (column : Nat) : Bool := !scan.flow && scan.margin ≤ column

/-- The state inside a block list or map in a column. -/
def deepen (scan : Scan) (column : Nat) : Scan :=
  { scan with margin := column + 1, outer := scan.margin :: scan.outer }

/-- A block list or map starts at the current position if none of its column is open. -/
def openBlock (scan : Scan) (token : Token) : Scan :=
  let column := scan.position.column
  if scan.deepens column then (scan.emit token).deepen column else scan

/-- The candidate is given up, which is not possible where a key has to stand. -/
def dropCandidate? (scan : Scan) : Option Scan :=
  if scan.candidate.any (·.required) then none else some { scan with candidate := none }

/-- The next token becomes the candidate if a key may stand there. -/
def noteCandidate? (scan : Scan) : Option Scan :=
  if scan.keyAllowed then do
    let scan ← scan.dropCandidate?
    let required := !scan.flow && scan.margin = scan.position.column + 1
    return { scan with candidate := some ⟨required, scan.count, scan.position⟩ }
  else some scan

/-- The mark of a document. -/
def mark? (scan : Scan) (token : Token) : Option Scan := do
  let scan ← (scan.close 0).dropCandidate?
  return { scan with keyAllowed := false }.emit token |>.pass 3

/-- An opening bracket or brace, which may start a key. -/
def bracket? (scan : Scan) (token : Token) : Option Scan := do
  let scan ← scan.noteCandidate?
  return { scan with
    candidate := none, enclosing := scan.candidate :: scan.enclosing, keyAllowed := true }
      |>.emit token |>.pass 1

/-- A closing bracket or brace. -/
def unbracket? (scan : Scan) (token : Token) : Option Scan := do
  let scan ← scan.dropCandidate?
  let outside :=
    match scan.enclosing with
    | [] => scan
    | candidate :: enclosing => { scan with candidate, enclosing }
  return { outside with keyAllowed := false }.emit token |>.pass 1

/-- A comma. -/
def comma? (scan : Scan) : Option Scan := do
  let scan ← scan.dropCandidate?
  return { scan with keyAllowed := true }.emit .comma |>.pass 1

/-- The dash of an item, which outside of brackets stands where a key may stand. -/
def item? (scan : Scan) : Option Scan := do
  if !scan.flow && !scan.keyAllowed then none
  let scan ← (scan.openBlock .blockList).dropCandidate?
  return { scan with keyAllowed := true }.emit .item |>.pass 1

/-- The question mark of a key. -/
def key? (scan : Scan) : Option Scan := do
  if !scan.flow && !scan.keyAllowed then none
  let scan ← (scan.openBlock .blockMap).dropCandidate?
  return { scan with keyAllowed := !scan.flow }.emit .key |>.pass 1

/-- The colon after a key, which is the candidate if there is one. -/
def value? (scan : Scan) : Option Scan := do
  let scan ←
    match scan.candidate with
    | some candidate =>
      let column := candidate.position.column
      let scan := { scan with candidate := none, keyAllowed := false }
      if scan.deepens column then
        pure ((scan.insert candidate.number [.blockMap, .key]).deepen column)
      else pure (scan.insert candidate.number [.key])
    | none =>
      if !scan.flow && !scan.keyAllowed then none
      else pure { scan.openBlock .blockMap with keyAllowed := !scan.flow }
  return scan.emit .value |>.pass 1

/-- A scalar in quotes, given how the text after the first quote is read. -/
def quoted? (scan : Scan) (read : Nat → List Char → Option Scalar) : Option Scan := do
  let scan ← scan.noteCandidate?
  let scalar ← read (scan.size + 1) (scan.text.drop 1)
  return { scan with keyAllowed := false }.emit (.scalar false (String.ofList scalar.body))
    |>.pass (scalar.length + 1)

/-- A plain scalar. After a line break that ends it a key may stand. -/
def plain? (scan : Scan) : Option Scan := do
  let scan ← scan.noteCandidate?
  let scalar ← Yaml.plain? scan.flow scan.margin (scan.size + 1) scan.text
  return { scan with keyAllowed := scalar.broken }.emit (.scalar true (String.ofList scalar.body))
    |>.pass scalar.length

/-- The token that starts with a character, with the text after that character. -/
def token? (scan : Scan) (c : Char) (rest : List Char) : Option Scan :=
  let lineStart := scan.position.column = 0
  if lineStart ∧ c = '%' then none
  else if lineStart ∧ atOpening (c :: rest) then scan.mark? .documentStart
  else if lineStart ∧ atClosing (c :: rest) then scan.mark? .documentEnd
  else if c = '[' then scan.bracket? .openBracket
  else if c = '\x7b' then scan.bracket? .openBrace
  else if c = ']' then scan.unbracket? .closeBracket
  else if c = '\x7d' then scan.unbracket? .closeBrace
  else if c = ',' then scan.comma?
  else if c = '-' ∧ atGap rest then scan.item?
  else if c = '?' ∧ (scan.flow ∨ atGap rest) then scan.key?
  else if c = ':' ∧ (scan.flow ∨ atGap rest) then scan.value?
  else if c = '\x27' then scan.quoted? singleQuoted?
  else if c = '\x22' then scan.quoted? doubleQuoted?
  else if startsPlain scan.flow (c :: rest) then scan.plain?
  else none

/-- The tokens of the rest of a text. The bound is on their number. -/
def tokens? : Nat → Scan → Option (List Token)
  | 0, _ => none
  | steps + 1, scan => do
    let scan ← scan.advance?
    match scan.text with
    | [] =>
      let scan ← (scan.close 0).dropCandidate?
      return scan.tokens.reverse
    | c :: rest =>
      let scan ← scan.token? c rest
      tokens? steps scan

end Scan

/-- The characters that may stand in a text. -/
def isAllowed (c : Char) : Bool :=
  let n := c.toNat
  isBreak c || n = 0x09 || (0x20 ≤ n && n ≤ 0x7E) || (0xA0 ≤ n && n ≤ 0xD7FF)
    || (0xE000 ≤ n && n ≤ 0xFFFD) || 0x10000 ≤ n

/-- The text with carriage returns and next-line characters written as line feeds. -/
def normalBreaks : List Char → List Char
  | [] => []
  | '\r' :: '\n' :: rest => '\n' :: normalBreaks rest
  | '\r' :: rest => '\n' :: normalBreaks rest
  | '\u0085' :: rest => '\n' :: normalBreaks rest
  | c :: rest => c :: normalBreaks rest

/-- A byte order mark in front of a text takes up a column like a blank. -/
def normalStart : List Char → List Char
  | '\uFEFF' :: rest => ' ' :: rest
  | text => text

/-- The tokens of a text. -/
def tokens? (text : String) : Option (List Token) :=
  let chars := normalBreaks (normalStart text.toList)
  if chars.all isAllowed then (Scan.start chars).tokens? (chars.length + 1) else none

end GraphRead.Yaml
