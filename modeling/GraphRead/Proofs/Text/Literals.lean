import GraphRead.Cypher.Literal
import GraphRead.Proofs.Text.Identifiers
import Mathlib.Data.Set.Function

/-!
# Reading literals back

A literal in a query is a keyword, a decimal integer, a string between single
quotes in which a backslash stands before a backslash or a quote, or a list of
literals between brackets. Every value made of these is read back from the text
that a query writes for it, whatever follows that cannot continue a keyword or a
number. So two such values are never written alike: neither what strings contain
nor how lists are nested can be mistaken.
-/

namespace GraphRead.Literal

/-- The values that are read back: all that hold neither objects nor fractional numbers. -/
inductive Exact : Json → Prop
  | null : Exact .null
  | bool (value : Bool) : Exact (.bool value)
  | integer (value : Int) : Exact (.number (.integer value))
  | string (text : String) : Exact (.string text)
  | array {items : List Json} (h : ∀ item ∈ items, Exact item) : Exact (.array items)

/-! ## A reader of literals -/

/-- The words that stand for values. -/
def keywords : List (String × Json) :=
  [("NULL", .null), ("true", .bool true), ("false", .bool false)]

/-- The keyword at the start of the characters, as its value, and what follows it. -/
def readKeyword (chars : List Char) : Option (Json × List Char) :=
  (keywords.lookup (String.ofList (chars.takeWhile Char.isAlpha))).map fun value =>
    (value, chars.dropWhile Char.isAlpha)

/-- The decimal number at the start of the characters, and what follows it. -/
def readNatural (chars : List Char) : Option (Nat × List Char) :=
  let digits := chars.takeWhile Char.isDigit
  if digits = [] then none
  else some (Nat.ofDigitChars 10 digits 0, chars.dropWhile Char.isDigit)

/-- The number at the start of the characters, with a sign if it is negative. -/
def readInteger : List Char → Option (Int × List Char)
  | '-' :: rest => (readNatural rest).map fun read => (-(read.1 : Int), read.2)
  | chars => (readNatural chars).map fun read => ((read.1 : Int), read.2)

/-- What a string holds, and what follows it. Reading starts after the opening quote. -/
def readString : List Char → Option (List Char × List Char)
  | '\x27' :: rest => some ([], rest)
  | '\\' :: '\\' :: rest => (readString rest).map fun read => ('\\' :: read.1, read.2)
  | '\\' :: '\x27' :: rest => (readString rest).map fun read => ('\x27' :: read.1, read.2)
  | '\\' :: _ => none
  | c :: rest => (readString rest).map fun read => (c :: read.1, read.2)
  | [] => none

mutual
/-- The value at the start of the characters, and what follows it. The bound is on the number of
steps. -/
def readWithin : Nat → List Char → Option (Json × List Char)
  | 0, _ => none
  | _, [] => none
  | steps + 1, c :: rest =>
    if c = '[' then
      if rest.head? = some ']' then some (.array [], rest.tail)
      else (readItems steps rest).map fun read => (.array read.1, read.2)
    else if c = '\x27' then
      (readString rest).map fun read => (.string (String.ofList read.1), read.2)
    else if c = '-' ∨ c.isDigit then
      (readInteger (c :: rest)).map fun read => (.number (.integer read.1), read.2)
    else readKeyword (c :: rest)

/-- The items of a list up to its closing bracket, and what follows it. Blanks may stand before
an item. -/
def readItems : Nat → List Char → Option (List Json × List Char)
  | 0, _ => none
  | steps + 1, chars =>
    (readWithin steps (chars.dropWhile (· = ' '))).bind fun read =>
      match read.2 with
      | ',' :: rest => (readItems steps rest).map fun others => (read.1 :: others.1, others.2)
      | ']' :: rest => some ([read.1], rest)
      | _ => none
end

/-- The value at the start of a text, and the text that follows it. -/
def read (text : String) : Option (Json × String) :=
  (readWithin text.length text.toList).map fun read => (read.1, String.ofList read.2)

/-- The characters that may follow a literal. -/
def delimiters : List Char := [' ', ',', '[', ']', '\x7b', '\x7d', '(', ')']

/-- Nothing follows, or a character that may follow a literal. -/
def Delimited (rest : List Char) : Prop := ∀ c, rest.head? = some c → c ∈ delimiters

/-! ## Keywords, numbers and strings -/

/-- What may follow a literal continues neither a keyword nor a number. -/
theorem Delimited.ends {rest : List Char} (h : Delimited rest) {c : Char}
    (hc : rest.head? = some c) : c.isAlpha = false ∧ c.isDigit = false := by
  have hall : delimiters.all (fun d => !d.isAlpha && !d.isDigit) = true := by decide
  simpa using List.all_eq_true.mp hall c (h c hc)

/-- A keyword is read from its word, if what follows does not continue it. -/
theorem readKeyword_append {word : String} {value : Json} {rest : List Char}
    (hword : keywords.lookup word = some value) (hletters : word.toList.all Char.isAlpha = true)
    (h : Delimited rest) : readKeyword (word.toList ++ rest) = some (value, rest) := by
  obtain ⟨htaken, hleft⟩ :=
    Text.run_append (List.all_eq_true.mp hletters) fun _ hc => (h.ends hc).1
  rw [readKeyword, htaken, hleft, String.ofList_toList, hword]
  rfl

/-- A natural number is written with digits, and at least one. -/
theorem digits_toString (n : Nat) :
    (∀ c ∈ (toString n).toList, c.isDigit = true) ∧
      ∃ c chars, (toString n).toList = c :: chars ∧ c.isDigit = true := by
  rw [Nat.toString_eq_repr, Nat.toList_repr]
  have hdigits : ∀ c ∈ Nat.toDigits 10 n, c.isDigit = true := fun _ hc =>
    Nat.isDigit_of_mem_toDigits (by decide) (by decide) hc
  obtain ⟨c, chars, hchars⟩ := List.exists_cons_of_ne_nil (Nat.toDigits_ne_nil (b := 10) (n := n))
  refine ⟨hdigits, c, chars, hchars, hdigits c ?_⟩
  rw [hchars]
  exact List.mem_cons_self

/-- A negative number is written with a sign before its digits. -/
theorem toList_toString_negSucc (n : Nat) :
    (toString (Int.negSucc n)).toList = '-' :: (toString (n + 1)).toList := by
  have hwritten : toString (Int.negSucc n) = "-" ++ toString (n + 1) := rfl
  rw [hwritten, String.toList_append]
  rfl

/-- A natural number is read back from its digits. -/
theorem readNatural_append (n : Nat) {rest : List Char} (h : Delimited rest) :
    readNatural ((toString n).toList ++ rest) = some (n, rest) := by
  obtain ⟨htaken, hleft⟩ :=
    Text.run_append (digits_toString n).1 fun _ hc => (h.ends hc).2
  rw [readNatural, htaken, hleft, Nat.toString_eq_repr, Nat.toList_repr,
    if_neg Nat.toDigits_ne_nil, Nat.ofDigitChars_ten_toDigits]

/-- An integer is read back from its digits and its sign. -/
theorem readInteger_append (value : Int) {rest : List Char} (h : Delimited rest) :
    readInteger ((toString value).toList ++ rest) = some (value, rest) := by
  cases value with
  | ofNat n =>
    change readInteger ((toString n).toList ++ rest) = _
    rw [readInteger, readNatural_append n h]
    · rfl
    · -- a digit is not a sign
      intro more hsign
      obtain ⟨-, c, chars, hchars, hdigit⟩ := digits_toString n
      rw [hchars, List.cons_append] at hsign
      rw [(List.cons.inj hsign).1] at hdigit
      cases hdigit
  | negSucc n =>
    rw [toList_toString_negSucc, List.cons_append, readInteger, readNatural_append (n + 1) h]
    rfl

/-- A string is read back from its escaped characters. -/
theorem readString_append (text rest : List Char) :
    readString (text.flatMap escapeChar ++ '\x27' :: rest) = some (text, rest) := by
  induction text with
  | nil => rfl
  | cons c text ih =>
    rw [List.flatMap_cons, List.append_assoc]
    by_cases hbackslash : c = '\\'
    · subst hbackslash
      change readString ('\\' :: '\\' :: (text.flatMap escapeChar ++ '\x27' :: rest)) = _
      rw [readString, ih]
      rfl
    · by_cases hquote : c = '\x27'
      · subst hquote
        change readString ('\\' :: '\x27' :: (text.flatMap escapeChar ++ '\x27' :: rest)) = _
        rw [readString, ih]
        rfl
      · have hplain : escapeChar c = [c] := by rw [escapeChar, if_neg hbackslash, if_neg hquote]
        rw [hplain, List.singleton_append, readString, ih]
        · rfl
        · exact hquote
        · exact fun _ h => absurd h hbackslash
        · exact fun _ h => absurd h hbackslash
        · exact hbackslash

/-! ## Values -/

/-- The characters of the items of a list, between its brackets. -/
def joined (items : List Json) : List Char := (Text.join ", " (writeAll items)).toList

/-- Two items stand with a comma and a blank between them. -/
theorem joined_cons_cons (item next : Json) (more : List Json) :
    joined (item :: next :: more) =
      (write item).toList ++ ',' :: ' ' :: joined (next :: more) := by
  have hjoin : Text.join ", " (writeAll (item :: next :: more)) =
      write item ++ ", " ++ Text.join ", " (writeAll (next :: more)) := rfl
  rw [joined, hjoin, String.toList_append, String.toList_append, List.append_assoc]
  rfl

/-- A list is written between brackets. -/
theorem toList_write_array (items : List Json) :
    (write (.array items)).toList = '[' :: (joined items ++ [']']) := by
  have hwritten : write (.array items) = "[" ++ Text.join ", " (writeAll items) ++ "]" := rfl
  rw [hwritten, String.toList_append, String.toList_append]
  rfl

/-- A string is written between quotes, with its characters escaped. -/
theorem toList_write_string (text : String) :
    (write (.string text)).toList = '\x27' :: (text.toList.flatMap escapeChar ++ ['\x27']) := by
  have hwritten : write (.string text) =
      "'" ++ String.ofList (text.toList.flatMap escapeChar) ++ "'" := rfl
  have hmark : "'".toList = ['\x27'] := rfl
  simp [hwritten, hmark]

/-- An integer begins with a sign or a digit. -/
theorem head_toString (value : Int) :
    ∃ c chars, (toString value).toList = c :: chars ∧ (c = '-' ∨ c.isDigit = true) := by
  cases value with
  | ofNat n =>
    obtain ⟨-, c, chars, hchars, hdigit⟩ := digits_toString n
    exact ⟨c, chars, hchars, .inr hdigit⟩
  | negSucc n => exact ⟨'-', (toString (n + 1)).toList, toList_toString_negSucc n, .inl rfl⟩

/-- A sign or a digit is no other character. -/
theorem ne_of_numeric {c other : Char} (hc : c = '-' ∨ c.isDigit = true)
    (hother : ¬ (other = '-' ∨ other.isDigit = true)) : c ≠ other := by
  rintro rfl
  exact hother hc

/-- A literal begins neither with a closing bracket nor with a blank. -/
theorem head_write {value : Json} (h : Exact value) :
    ∃ c chars, (write value).toList = c :: chars ∧ c ≠ ']' ∧ c ≠ ' ' := by
  cases h with
  | null => exact ⟨'N', ['U', 'L', 'L'], rfl, by decide, by decide⟩
  | bool value =>
    cases value with
    | true => exact ⟨'t', ['r', 'u', 'e'], rfl, by decide, by decide⟩
    | false => exact ⟨'f', ['a', 'l', 's', 'e'], rfl, by decide, by decide⟩
  | integer value =>
    obtain ⟨c, chars, hchars, hc⟩ := head_toString value
    exact ⟨c, chars, hchars, ne_of_numeric hc (by decide), ne_of_numeric hc (by decide)⟩
  | string text => exact ⟨'\x27', _, toList_write_string text, by decide, by decide⟩
  | array => exact ⟨'[', _, toList_write_array _, by decide, by decide⟩

/-- The items of a list begin as the first of them does. -/
theorem head_joined {items : List Json} (hne : items ≠ []) (h : ∀ item ∈ items, Exact item) :
    ∃ c chars, joined items = c :: chars ∧ c ≠ ']' ∧ c ≠ ' ' := by
  cases items with
  | nil => exact absurd rfl hne
  | cons item rest =>
    obtain ⟨c, chars, hchars, hc⟩ := head_write (h item List.mem_cons_self)
    cases rest with
    | nil => exact ⟨c, chars, hchars, hc⟩
    | cons next more =>
      refine ⟨c, chars ++ ',' :: ' ' :: joined (next :: more), ?_, hc⟩
      rw [joined_cons_cons, hchars, List.cons_append]

/-- A value is read back from its literal, given as many steps as the literal has characters. -/
def Restores (value : Json) : Prop :=
  ∀ steps rest, (write value).toList.length ≤ steps → Delimited rest →
    readWithin steps ((write value).toList ++ rest) = some (value, rest)

/-- There is a step for every character. -/
theorem exists_step {c : Char} {chars : List Char} {steps : Nat}
    (h : (c :: chars).length ≤ steps) : ∃ less, steps = less + 1 :=
  Nat.exists_eq_add_one.mpr (Nat.lt_of_lt_of_le (Nat.succ_pos chars.length) h)

/-- The items of a list are read back if each of them is. -/
theorem readItems_joined {items : List Json} (hne : items ≠ [])
    (hexact : ∀ item ∈ items, Exact item) (hrestores : ∀ item ∈ items, Restores item)
    {steps : Nat} {chars rest : List Char}
    (hchars : chars.dropWhile (· = ' ') = joined items ++ ']' :: rest)
    (hsteps : (joined items).length < steps) : readItems steps chars = some (items, rest) := by
  induction items generalizing steps chars with
  | nil => exact absurd rfl hne
  | cons item others ih =>
    obtain ⟨steps, rfl⟩ : ∃ less, steps = less + 1 := ⟨steps - 1, by omega⟩
    have hitem := hrestores item List.mem_cons_self
    rw [readItems, hchars]
    cases others with
    | nil =>
      have hread : readWithin steps (joined [item] ++ ']' :: rest) = some (item, ']' :: rest) := by
        refine hitem steps _ ?_ ?_
        · exact Nat.le_of_lt_succ hsteps
        · rintro c ⟨⟩
          decide
      rw [hread]
      rfl
    | cons next more =>
      rw [joined_cons_cons, List.append_assoc, List.cons_append, List.cons_append]
      rw [joined_cons_cons, List.length_append, List.length_cons, List.length_cons] at hsteps
      have hread : readWithin steps ((write item).toList ++
          ',' :: ' ' :: (joined (next :: more) ++ ']' :: rest)) =
          some (item, ',' :: ' ' :: (joined (next :: more) ++ ']' :: rest)) := by
        refine hitem steps _ (by omega) ?_
        rintro c ⟨⟩
        decide
      -- The blank after the comma is skipped, and no item begins with a blank.
      have hothers : readItems steps (' ' :: (joined (next :: more) ++ ']' :: rest)) =
          some (next :: more, rest) := by
        have hmore := (List.forall_mem_cons.mp hexact).2
        refine ih (by simp) hmore (List.forall_mem_cons.mp hrestores).2 ?_ (by omega)
        obtain ⟨c, chars, hjoined, -, hblank⟩ := head_joined (by simp) hmore
        rw [hjoined, List.cons_append]
        simp [hblank]
      rw [hread]
      change (readItems steps _).map _ = _
      rw [hothers]
      rfl

/-- A value that is written as a keyword is read back. -/
theorem restores_keyword {value : Json} {word : String} (hwritten : write value = word)
    (hword : keywords.lookup word = some value) (hletters : word.toList.all Char.isAlpha = true)
    (hhead : ∃ c chars, word.toList = c :: chars ∧
      c ≠ '[' ∧ c ≠ '\x27' ∧ ¬ (c = '-' ∨ c.isDigit = true)) : Restores value := by
  obtain ⟨c, chars, hchars, hlist, hquote, hnumber⟩ := hhead
  intro steps rest hsteps hrest
  have hread := readKeyword_append hword hletters hrest
  rw [hwritten, hchars] at hsteps ⊢
  rw [hchars] at hread
  obtain ⟨steps, rfl⟩ := exists_step hsteps
  rw [List.cons_append, readWithin, if_neg hlist, if_neg hquote, if_neg hnumber]
  exact hread

/-- An integer is read back. -/
theorem restores_integer (value : Int) : Restores (.number (.integer value)) := by
  intro steps rest hsteps hrest
  obtain ⟨c, chars, hchars, hc⟩ := head_toString value
  have hread := readInteger_append value hrest
  change (toString value).toList.length ≤ steps at hsteps
  change readWithin steps ((toString value).toList ++ rest) = _
  rw [hchars] at hsteps hread ⊢
  obtain ⟨steps, rfl⟩ := exists_step hsteps
  have hlist : c ≠ '[' := ne_of_numeric hc (by decide)
  have hquote : c ≠ '\x27' := ne_of_numeric hc (by decide)
  rw [List.cons_append] at hread ⊢
  rw [readWithin, if_neg hlist, if_neg hquote, if_pos hc, hread]
  rfl

/-- A string is read back, whatever it contains. -/
theorem restores_string (text : String) : Restores (.string text) := by
  intro steps rest hsteps _
  rw [toList_write_string] at hsteps ⊢
  obtain ⟨steps, rfl⟩ := exists_step hsteps
  rw [List.cons_append, List.append_assoc, List.singleton_append, readWithin,
    if_neg (by decide), if_pos rfl, readString_append]
  rw [Option.map_some, String.ofList_toList]

/-- A list is read back, if its items are. -/
theorem restores_array {items : List Json} (hexact : ∀ item ∈ items, Exact item)
    (hrestores : ∀ item ∈ items, Restores item) : Restores (.array items) := by
  intro steps rest hsteps _
  rw [toList_write_array] at hsteps ⊢
  obtain ⟨steps, rfl⟩ := exists_step hsteps
  rw [List.length_cons, List.length_append, List.length_singleton] at hsteps
  rw [List.cons_append, List.append_assoc, List.singleton_append, readWithin, if_pos rfl]
  by_cases hne : items = []
  · subst hne
    rfl
  · obtain ⟨c, chars, hjoined, hclose, hblank⟩ := head_joined hne hexact
    have hopen : (joined items ++ ']' :: rest).head? ≠ some ']' := by simpa [hjoined] using hclose
    have hchars : (joined items ++ ']' :: rest).dropWhile (· = ' ') =
        joined items ++ ']' :: rest := by simp [hjoined, hblank]
    rw [if_neg hopen, readItems_joined hne hexact hrestores hchars (by omega)]
    rfl

/-- Every exact value is read back from its literal. -/
theorem Exact.restores {value : Json} (h : Exact value) : Restores value := by
  induction h with
  | null =>
    exact restores_keyword rfl rfl (by decide) ⟨'N', _, rfl, by decide, by decide, by decide⟩
  | bool value =>
    cases value with
    | true =>
      exact restores_keyword rfl rfl (by decide) ⟨'t', _, rfl, by decide, by decide, by decide⟩
    | false =>
      exact restores_keyword rfl rfl (by decide) ⟨'f', _, rfl, by decide, by decide, by decide⟩
  | integer value => exact restores_integer value
  | string text => exact restores_string text
  | array hexact ih => exact restores_array hexact ih

/-- A value is read back from the start of a text, and what follows is left. -/
theorem read_write_append {value : Json} (h : Exact value) {rest : String}
    (hrest : Delimited rest.toList) : read (write value ++ rest) = some (value, rest) := by
  have hsteps : (write value).toList.length ≤ (write value ++ rest).length := by
    rw [String.length_append]
    exact Nat.le_add_right _ _
  rw [read, String.toList_append, h.restores _ _ hsteps hrest, Option.map_some,
    String.ofList_toList]

/-- Two values of the same literal are the same. -/
theorem eq_of_write_eq {first second : Json} (hfirst : Exact first) (hsecond : Exact second)
    (h : write first = write second) : first = second := by
  have hnothing : Delimited "".toList := by
    rintro c ⟨⟩
  have hread := read_write_append hfirst hnothing
  rw [h, read_write_append hsecond hnothing] at hread
  exact (congrArg Prod.fst (Option.some.inj hread)).symm

/-- The characters with a text in the place of each occurrence of one of them. -/
def replaced (c : Char) (text chars : List Char) : List Char :=
  chars.flatMap fun other => if other = c then text else [other]

/-- Escaping replaces the backslashes and after them the quotes; the backslashes that the second
replacement brings in are not replaced again. -/
theorem flatMap_escapeChar (chars : List Char) :
    chars.flatMap escapeChar =
      replaced '\x27' ['\\', '\x27'] (replaced '\\' ['\\', '\\'] chars) := by
  rw [replaced, replaced, List.flatMap_assoc]
  congr 1
  funext c
  by_cases hbackslash : c = '\\'
  · subst hbackslash
    rfl
  · rw [if_neg hbackslash, escapeChar, if_neg hbackslash, List.flatMap_singleton]

/-- Every value made of null, truth values, integers, strings and lists is read back from what a
query writes for it, as the one literal in front of any text that does not go on with it. So
different values of this kind are written differently, although the text of a string is only
that of two replacements, one after the other. -/
theorem write_reads_back :
    (∀ (value : Json) (rest : String), Exact value → Delimited rest.toList →
      read (write value ++ rest) = some (value, rest)) ∧
    Set.InjOn write {value | Exact value} ∧
    ∀ text : String, (write (.string text)).toList =
      '\x27' :: (replaced '\x27' ['\\', '\x27'] (replaced '\\' ['\\', '\\'] text.toList) ++
        ['\x27']) := by
  refine ⟨fun value rest hvalue hrest => read_write_append hvalue hrest, ?_, ?_⟩
  · exact fun first hfirst second hsecond h => eq_of_write_eq hfirst hsecond h
  · intro text
    rw [toList_write_string, flatMap_escapeChar]

/-- A list in a list, with brackets, commas, quotes and backslashes in its strings. -/
def tangled : Json :=
  .array [.string "',' ]\\", .array [.number (.integer (-7)), .null, .array []], .bool true]

/-- The list is read back, whatever is in its strings and behind it. -/
theorem tangled_reads_back :
    Exact tangled ∧ Delimited "], 'x'".toList ∧
      read (write tangled ++ "], 'x'") = some (tangled, "], 'x'") := by
  have hexact : Exact tangled := by
    refine .array ?_
    simp only [List.forall_mem_cons, List.not_mem_nil, false_imp_iff, implies_true, and_true]
    refine ⟨.string _, .array ?_, .bool _⟩
    simp only [List.forall_mem_cons, List.not_mem_nil, false_imp_iff, implies_true, and_true]
    exact ⟨.integer _, .null, .array (List.forall_mem_nil _)⟩
  have hdelimited : Delimited "], 'x'".toList := by
    intro c hc
    obtain rfl : ']' = c := Option.some.inj hc
    decide
  exact ⟨hexact, hdelimited, write_reads_back.1 _ _ hexact hdelimited⟩

end GraphRead.Literal
