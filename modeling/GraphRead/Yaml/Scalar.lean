/-!
# YAML scalars

The three ways to write a scalar: plain, between single quotes and between
double quotes. A scalar may go on over several lines. A single line feed then
stands for a blank, and of several line breaks the first is dropped if it is a
line feed; a line or paragraph separator always stands for itself.
-/

namespace GraphRead.Yaml

/-- Blanks inside a line. -/
def isBlank (c : Char) : Bool := c = ' ' || c = '\t'

/-- Line breaks: the line feed, the line separator and the paragraph separator. -/
def isBreak (c : Char) : Bool := c = '\n' || c = '\u2028' || c = '\u2029'

/-- Blanks and line breaks. -/
def isGap (c : Char) : Bool := isBlank c || isBreak c

/-- Whether a text is at its end or goes on with a blank or a line break. -/
def atGap : List Char → Bool
  | [] => true
  | c :: _ => isGap c

/-- What the blanks and line breaks between two words stand for. -/
def folded (gap : List Char) : List Char :=
  match gap.filter isBreak with
  | [] => gap
  | ['\n'] => [' ']
  | '\n' :: breaks => breaks
  | breaks => breaks

/-- Whether the mark that opens a document stands here. -/
def atOpening : List Char → Bool
  | '-' :: '-' :: '-' :: rest => atGap rest
  | _ => false

/-- Whether the mark that closes a document stands here. -/
def atClosing : List Char → Bool
  | '.' :: '.' :: '.' :: rest => atGap rest
  | _ => false

/-- Whether a gap ends at the start of a line and the mark of a document stands there. -/
def meetsMark (gap rest : List Char) : Bool :=
  gap.getLast?.any isBreak && (atOpening rest || atClosing rest)

/-- The characters that have a meaning of their own inside brackets and braces. -/
def isFlowMark (c : Char) : Bool := c ∈ [',', '[', ']', '\x7b', '\x7d']

/-- A word of a plain scalar. A colon ends the word if a blank follows, and inside brackets it may
not stand before their marks. -/
def word? (flow : Bool) : List Char → Option (List Char)
  | [] => some []
  | c :: rest =>
    if isGap c then some []
    else if c = ':' ∧ atGap rest then some []
    else if flow ∧ c = ':' ∧ rest.head?.any (fun d => isFlowMark d || d = '?') then none
    else if flow ∧ isFlowMark c then some []
    else (word? flow rest).map (c :: ·)

/-- The column at which a line starts after blanks and line breaks. -/
def columnAfter (gap : List Char) : Nat := (gap.reverse.takeWhile (!isBreak ·)).length

/-- Whether a tab stands left of the margin on a line that starts inside a gap. -/
def tabbed (margin : Nat) : (broken : Bool) → (column : Nat) → List Char → Bool
  | _, _, [] => false
  | broken, column, c :: rest =>
    if isBreak c then tabbed margin true 0 rest
    else (broken && c = '\t' && column < margin) || tabbed margin broken (column + 1) rest

/-- Whether a plain scalar ends at a gap: at a comment, at the mark of a document, or, outside of
brackets, at a line that starts left of the margin. -/
def endsAtGap (flow : Bool) (margin : Nat) (gap rest : List Char) : Bool :=
  rest.head? = some '#' || meetsMark gap rest
    || (!flow && gap.any isBreak && columnAfter gap < margin)

/-- A scalar: what it stands for and the number of characters it takes up. -/
structure Scalar where
  body : List Char
  length : Nat

/-- A scalar with characters in front of it, written in the given number of characters. -/
def Scalar.after (scalar : Scalar) (body : List Char) (length : Nat) : Scalar :=
  ⟨body ++ scalar.body, length + scalar.length⟩

/-- A plain scalar with the gap that ends it. -/
structure PlainScalar extends Scalar where
  /-- Whether that gap holds a line break. -/
  broken : Bool

/-- The rest of a plain scalar after a word. Tabs cannot indent its lines. The bound is on the
number of words. -/
def words? (flow : Bool) (margin : Nat) : Nat → List Char → Option PlainScalar
  | 0, _ => none
  | steps + 1, text =>
    let gap := text.takeWhile isGap
    let rest := text.drop gap.length
    if gap.isEmpty then some ⟨⟨[], 0⟩, false⟩
    else if tabbed margin false 0 gap then none
    else if endsAtGap flow margin gap rest then some ⟨⟨[], gap.length⟩, gap.any isBreak⟩
    else
      (word? flow rest).bind fun word =>
        if word.isEmpty then some ⟨⟨[], gap.length⟩, gap.any isBreak⟩
        else
          (words? flow margin steps (rest.drop word.length)).map fun words =>
            ⟨words.after (folded gap ++ word) (gap.length + word.length), words.broken⟩

/-- The plain scalar at the start of a text. -/
def plain? (flow : Bool) (margin steps : Nat) (text : List Char) : Option PlainScalar :=
  (word? flow text).bind fun word =>
    (words? flow margin steps (text.drop word.length)).map fun words =>
      ⟨words.after word word.length, words.broken⟩

/-- The characters that cannot start a plain scalar. -/
def isIndicator (c : Char) : Bool :=
  c ∈ ['-', '?', ':', ',', '[', ']', '\x7b', '\x7d', '#', '&', '*', '!', '|', '>', '\x27', '\x22',
    '%', '@', '\x60']

/-- Whether a plain scalar starts here. A dash may start one if no blank follows, and outside of
brackets so may a colon or a question mark. -/
def startsPlain (flow : Bool) : List Char → Bool
  | [] => false
  | c :: rest =>
    if c = '-' then !atGap rest
    else if c = '?' ∨ c = ':' then !flow && !atGap rest
    else !isGap c && !isIndicator c

/-- The rest of a scalar in single quotes. The mark of a document cannot stand inside. The bound is
on the number of characters. -/
def singleQuoted? : Nat → List Char → Option Scalar
  | 0, _ => none
  | _ + 1, [] => none
  | steps + 1, c :: rest =>
    if c = '\x27' then
      match rest with
      | '\x27' :: rest => (singleQuoted? steps rest).map (·.after ['\x27'] 2)
      | _ => some ⟨[], 1⟩
    else if isGap c then
      let gap := c :: rest.takeWhile isGap
      let rest := rest.dropWhile isGap
      if meetsMark gap rest then none
      else (singleQuoted? steps rest).map (·.after (folded gap) gap.length)
    else (singleQuoted? steps rest).map (·.after [c] 1)

/-- The character of a one-letter escape in double quotes. -/
def escape? (c : Char) : Option Char :=
  ([('0', 0x00), ('a', 0x07), ('b', 0x08), ('t', 0x09), ('\t', 0x09), ('n', 0x0A), ('v', 0x0B),
    ('f', 0x0C), ('r', 0x0D), ('e', 0x1B), (' ', 0x20), ('\x22', 0x22), ('/', 0x2F), ('\\', 0x5C),
    ('N', 0x85), ('_', 0xA0), ('L', 0x2028), ('P', 0x2029)].lookup c).map Char.ofNat

/-- The number of hexadecimal digits of a numeric escape. -/
def escapeLength? (c : Char) : Option Nat := [('x', 2), ('u', 4), ('U', 8)].lookup c

/-- The value of a digit in any base up to sixteen. -/
def digitOf? (c : Char) : Option Nat :=
  if c.isDigit then some (c.toNat - '0'.toNat)
  else if 'a' ≤ c ∧ c ≤ 'f' then some (c.toNat - 'a'.toNat + 10)
  else if 'A' ≤ c ∧ c ≤ 'F' then some (c.toNat - 'A'.toNat + 10)
  else none

/-- The value of hexadecimal digits. -/
def hex? (digits : List Char) : Option Nat :=
  digits.foldlM (fun soFar c => (digitOf? c).map (soFar * 16 + ·)) 0

/-- An escape other than a line break, after its backslash. -/
def escapeAt? : List Char → Option (Char × Nat)
  | [] => none
  | c :: rest =>
    match escapeLength? c with
    | some length => do
      let digits := rest.take length
      if digits.length < length then none
      let code ← hex? digits
      if code.isValidChar then return (Char.ofNat code, length + 1) else none
    | none => (escape? c).map fun c => (c, 1)

/-- The rest of a scalar in double quotes. An escaped line break stands for nothing, and of the gap
after it only the line breaks are kept. The mark of a document cannot stand inside. The bound is on
the number of characters. -/
def doubleQuoted? : Nat → List Char → Option Scalar
  | 0, _ => none
  | _ + 1, [] => none
  | steps + 1, c :: rest =>
    if c = '\x22' then some ⟨[], 1⟩
    else if c = '\\' then
      if rest.head?.any isBreak then
        let gap := rest.takeWhile isGap
        let rest := rest.dropWhile isGap
        if meetsMark gap rest then none
        else
          (doubleQuoted? steps rest).map
            (·.after ((gap.drop 1).filter isBreak) (gap.length + 1))
      else
        (escapeAt? rest).bind fun (c, length) =>
          (doubleQuoted? steps (rest.drop length)).map (·.after [c] (length + 1))
    else if isGap c then
      let gap := c :: rest.takeWhile isGap
      let rest := rest.dropWhile isGap
      if meetsMark gap rest then none
      else (doubleQuoted? steps rest).map (·.after (folded gap) gap.length)
    else (doubleQuoted? steps rest).map (·.after [c] 1)

end GraphRead.Yaml
