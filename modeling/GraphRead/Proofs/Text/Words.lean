import GraphRead.Cypher.Literal
import GraphRead.Proofs.Text.Formula

/-!
# Names and literals are words

A name is read as one word as a query writes it, whatever backticks and blanks are
in it. So is a literal without a map: quotes and backslashes in its strings are
escaped, numbers are written without blanks, and lists stand in brackets.
-/

namespace GraphRead

open Text (Spans Solid Opening)
open Text.Scan (top within)

namespace Json

mutual
/-- Whether there is a map in a value, at any depth. -/
def holdsObject : Json → Bool
  | .object _ => true
  | .array items => holdsObjectAny items
  | .null | .bool _ | .number _ | .string _ => false
termination_by structural value => value

/-- Whether there is a map in one of the values. -/
def holdsObjectAny : List Json → Bool
  | [] => false
  | item :: items => item.holdsObject || holdsObjectAny items
termination_by structural items => items
end

end Json

namespace Text

/-- Characters that leave a scanner outside of quotes, brackets and blanks. -/
def isInert (c : Char) : Bool := top.wordStep c = some top

/-- Inert characters are a part of a word. -/
theorem solid_of_isInert {text : String} (h : ∀ c ∈ text.toList, isInert c = true) :
    Solid text [] [] := by
  suffices hrun : ∀ chars : List Char, (∀ c ∈ chars, isInert c = true) →
      top.runWord chars = some top from hrun text.toList h
  intro chars hchars
  induction chars with
  | nil => rfl
  | cons c rest ih =>
    obtain ⟨hc, hrest⟩ := List.forall_mem_cons.mp hchars
    rw [Scan.runWord_cons, of_decide_eq_true hc]
    exact ih hrest

/-- The characters of plain names are inert. -/
theorem isInert_of_isPart {c : Char} (h : Identifier.isPart c = true) : isInert c = true := by
  have hne : ∀ other : Char, Identifier.isPart other = false → c ≠ other := by
    rintro other hother rfl
    simp [hother] at h
  obtain ⟨hquote, -, hbracket⟩ := read_isPart h
  have hblank : c.isWhitespace = false := by
    simp [Char.isWhitespace, hne ' ' (by decide), hne '\t' (by decide), hne '\r' (by decide),
      hne '\n' (by decide)]
  have hmark (double : Bool) : c ≠ quoteMark double := by
    cases double
    · exact hne _ (by decide)
    · exact hne _ (by decide)
  have hstep : top.step c = some top := by
    simp [Scan.step, top, within, hquote, hmark, hbracket]
  simp [isInert, Scan.wordStep, hblank, hstep]

/-- A plain name is a part of a word. -/
theorem solid_of_isPlain {name : String} (h : Identifier.isPlain name = true) :
    Solid name [] [] := by
  refine solid_of_isInert fun c hc => ?_
  exact isInert_of_isPart (isPart_of_isPlain h c hc)

/-- Doubled backticks do not end a name, and there is no blank between the two of them. -/
theorem runWord_doubled (chars : List Char) :
    Scan.runWord ⟨.name, []⟩ (Identifier.doubled chars) = some ⟨.name, []⟩ := by
  induction chars with
  | nil => rfl
  | cons c rest ih =>
    have hfirst : Scan.runWord ⟨.name, []⟩ (if c = '\x60' then ['\x60', '\x60'] else [c]) =
        some ⟨.name, []⟩ := by
      split
      · decide
      next hquote =>
        have htop : (⟨.name, []⟩ : Scan) ≠ top := by decide
        simp [Scan.runWord, Scan.wordStep, Scan.step, htop, hquote]
    rw [Identifier.doubled] at ih ⊢
    rw [List.flatMap_cons, Scan.runWord_append hfirst]
    exact ih

/-- Every name is read as one word as a query writes it. -/
theorem solid_escape (name : String) : Solid (Identifier.escape name) [] [] := by
  unfold Identifier.escape
  split
  next h => exact solid_of_isPlain h
  next =>
    have hmark : "`".toList = ['\x60'] := rfl
    have hopen : top.runWord ['\x60'] = some ⟨.name, []⟩ := by decide
    unfold Solid
    rw [String.toList_append, String.toList_append, hmark, String.toList_ofList, List.append_assoc]
    refine (Scan.runWord_append hopen _).trans ?_
    exact (Scan.runWord_append (runWord_doubled name.toList) _).trans (by decide)

/-- A text begins as its first part does, if that is not empty. -/
theorem head?_append {first : String} (h : first ≠ "") (second : String) :
    (first ++ second).toList.head? = first.toList.head? := by
  obtain ⟨c, rest, hchars⟩ := List.exists_cons_of_ne_nil (mt String.toList_eq_nil_iff.mp h)
  simp [hchars]

/-- An application of a plain function begins an atom, since its parenthesis is not the first
character. -/
theorem opening_application {function text : String} (h : Identifier.isPlain function = true)
    (htext : Spans text [] []) : Opening (function ++ "(" ++ text ++ ")") := by
  have hparen : "(".toList = ['('] := rfl
  have hopens : Solid (function ++ "(") [] [')'] := (solid_of_isPlain h).append (by decide)
  have hsolid : Solid (function ++ "(" ++ text ++ ")") [] [] :=
    .between (by decide) hopens htext (by decide)
  have hne : function ≠ "" := by
    rintro rfl
    exact absurd h (by decide)
  have hhead : (function ++ "(" ++ text ++ ")").toList.head? ≠ some '(' := by
    rw [String.append_assoc, String.append_assoc, head?_append hne]
    intro hfirst
    exact absurd (isPart_of_isPlain h '(' (List.mem_of_mem_head? hfirst)) (by decide)
  exact opening_of_mem hsolid hhead (by simp [hparen]) (show '('.isUpper = false by decide)

/-- A path of properties begins an atom, if its name does. Its keys are quoted. -/
theorem opening_path {name : String} (h : Opening name) (path : List String) :
    Opening (name ++ String.join (path.map fun key => "." ++ Identifier.escape key)) := by
  cases path with
  | nil => simpa using h
  | cons key rest =>
    have hdot : ".".toList = ['.'] := rfl
    have hkeys : Solid (String.join ((key :: rest).map fun key => "." ++ Identifier.escape key))
        [] [] :=
      .concat (List.forall_mem_map.mpr fun key _ => .append (by decide) (solid_escape key))
    have hmem : '.' ∈ (name ++ String.join ((key :: rest).map
        fun key => "." ++ Identifier.escape key)).toList := by
      simp [String.join_cons, hdot]
    exact opening_of_mem (h.solid.append hkeys) (by rw [head?_append h.nonempty]; exact h.no_paren)
      hmem (by decide)

/-- A parameter with a plain name begins an atom. -/
theorem opening_param {name : String} (h : Identifier.isPlain name = true) :
    Opening ("$" ++ name) := by
  have hmark : "$".toList = ['$'] := rfl
  have hsolid : Solid ("$" ++ name) [] [] := .append (by decide) (solid_of_isPlain h)
  exact opening_of_mem hsolid (by simp [hmark]) (show '$' ∈ ("$" ++ name).toList by simp [hmark])
    (by decide)

end Text

/-- The words that join and negate conditions. -/
def Formula.keywords : List String := ["AND", "OR", "NOT"]

/-- Whether a name is a plain identifier that does not join or negate conditions. -/
def Identifier.isOrdinary (name : String) : Bool :=
  isPlain name && !Formula.keywords.contains name

/-- An ordinary name is plain. -/
theorem Identifier.isPlain_of_isOrdinary {name : String} (h : isOrdinary name = true) :
    isPlain name = true := by
  rw [isOrdinary, Bool.and_eq_true] at h
  exact h.1

/-- An ordinary name begins an atom. -/
theorem Identifier.opening_of_isOrdinary {name : String} (h : isOrdinary name = true) :
    Opening name := by
  simp only [isOrdinary, Formula.keywords, Bool.and_eq_true, Bool.not_eq_true',
    List.contains_eq_mem, List.mem_cons, List.not_mem_nil, or_false, decide_eq_false_iff_not,
    not_or] at h
  obtain ⟨hplain, hand, hor, hnot⟩ := h
  have hparts := Text.isPart_of_isPlain hplain
  refine ⟨⟨?_, Text.solid_of_isPlain hplain, hand, hor⟩, hnot, ?_⟩
  · rintro rfl
    exact absurd hplain (by decide)
  · intro hhead
    exact absurd (hparts '(' (List.mem_of_mem_head? hhead)) (by decide)

open Text (isInert solid_of_isInert isInert_of_isPart)

/-! ### Numbers -/

/-- The characters of numbers. -/
def isNumeral (c : Char) : Bool := c.isDigit || "-+.e".toList.contains c

/-- The characters of numbers are inert, and they are neither capital letters nor parentheses. -/
theorem isNumeral_cases {c : Char} (h : isNumeral c = true) :
    isInert c = true ∧ c.isUpper = false ∧ c ≠ '(' := by
  simp only [isNumeral, Bool.or_eq_true] at h
  rcases h with h | h
  · have hpart : Identifier.isPart c = true := by simp [Identifier.isPart, Char.isAlphanum, h]
    refine ⟨isInert_of_isPart hpart, ?_, ?_⟩
    · simp only [Char.isDigit, Bool.and_eq_true, decide_eq_true_eq] at h
      change decide (c.val ≥ 'A'.val ∧ c.val ≤ 'Z'.val) = false
      grind
    · rintro rfl
      exact absurd hpart (by decide)
  · have hmarks : "-+.e".toList = ['-', '+', '.', 'e'] := rfl
    have hcases : c = '-' ∨ c = '+' ∨ c = '.' ∨ c = 'e' := by simpa [hmarks] using h
    rcases hcases with rfl | rfl | rfl | rfl <;> decide

/-- A text that consists of the characters of numbers. -/
def Numeral (text : String) : Prop := text.toList.all isNumeral = true

instance (text : String) : Decidable (Numeral text) := inferInstanceAs (Decidable (_ = _))

/-- A text is a numeral if its characters are those of numbers. -/
theorem numeral_iff {text : String} : Numeral text ↔ ∀ c ∈ text.toList, isNumeral c = true :=
  List.all_eq_true

namespace Numeral

/-- Numerals in a row are a numeral. -/
theorem append {first second : String} (hfirst : Numeral first) (hsecond : Numeral second) :
    Numeral (first ++ second) := by
  unfold Numeral at hfirst hsecond ⊢
  rw [String.toList_append, List.all_append, hfirst, hsecond]
  rfl

/-- A numeral begins an atom, if it is not empty. -/
theorem opening {text : String} (h : Numeral text) (hne : text ≠ "") : Opening text := by
  obtain ⟨c, rest, hchars⟩ := List.exists_cons_of_ne_nil (mt String.toList_eq_nil_iff.mp hne)
  have hc : c ∈ text.toList := by simp [hchars]
  obtain ⟨-, hlower, hparen⟩ := isNumeral_cases (numeral_iff.mp h c hc)
  have hsolid := solid_of_isInert fun c hc => (isNumeral_cases (numeral_iff.mp h c hc)).1
  exact Text.opening_of_mem hsolid (by simpa [hchars] using hparen) hc hlower

end Numeral

/-- A natural number is written as a numeral. -/
theorem numeral_toString (n : Nat) : Numeral (toString n) := by
  refine numeral_iff.mpr fun c hc => ?_
  rw [Nat.toString_eq_repr, Nat.toList_repr] at hc
  simp [isNumeral, Nat.isDigit_of_mem_toDigits (by decide) (by decide) hc]

/-- A natural number is written with a digit at least. -/
theorem toString_ne_empty (n : Nat) : toString n ≠ "" := by
  rw [Nat.toString_eq_repr, ← String.toList_inj.ne, Nat.toList_repr]
  exact Nat.toDigits_ne_nil

namespace Decimal

/-- Decimal digits are written as a numeral. -/
theorem numeral_digitText {digits : List Nat} (h : ∀ d ∈ digits, d < 10) :
    Numeral (digitText digits) := by
  have hdigit : ∀ d < 10, isNumeral (Char.ofNat ('0'.toNat + d)) = true := by decide
  refine numeral_iff.mpr fun c hc => ?_
  rw [digitText, String.toList_ofList] at hc
  obtain ⟨d, hd, rfl⟩ := List.mem_map.mp hc
  exact hdigit d (h d hd)

/-- Zeros are a numeral. -/
theorem numeral_zeros (count : Nat) : Numeral (zeros count) := by
  refine numeral_iff.mpr fun c hc => ?_
  rw [zeros, String.toList_ofList] at hc
  rw [List.eq_of_mem_replicate hc]
  decide

/-- The digits of a natural number are decimal. -/
theorem naturalDigits_lt (n : Nat) : ∀ d ∈ naturalDigits n, d < 10 := by
  intro d hd
  obtain ⟨c, hc, rfl⟩ := List.mem_map.mp hd
  have hdigit := Nat.isDigit_of_mem_toDigits (by decide) (by decide) hc
  simp only [Char.isDigit, Bool.and_eq_true, decide_eq_true_eq] at hdigit
  have hle : c.toNat ≤ 57 := hdigit.2
  have hzero : '0'.toNat = 48 := rfl
  omega

/-- The digits of the shortest decimal are decimal. -/
theorem shortest_lt (x : Binary64) : ∀ d ∈ (shortest x).digits, d < 10 := by
  unfold shortest
  split
  · simp
  · simp only
    split
    · simp
    next count unit hgrid =>
      intro d hd
      have hdrop := (List.dropWhile_sublist _).mem (List.mem_reverse.mp hd)
      exact naturalDigits_lt count d (List.mem_reverse.mp hdrop)

/-- A decimal without an exponent is a numeral. -/
theorem numeral_positional {d : Digits} (h : ∀ digit ∈ d.digits, digit < 10) :
    Numeral (positional d) ∧ positional d ≠ "" := by
  have hdot : "." ≠ "" := by decide
  unfold positional
  split
  · exact ⟨.append (.append (by decide) (numeral_zeros _)) (numeral_digitText h), by simp⟩
  · simp only
    split
    · exact ⟨.append (.append (numeral_digitText h) (numeral_zeros _)) (by decide), by simp⟩
    · refine ⟨.append (.append (numeral_digitText ?_) (by decide)) (numeral_digitText ?_), by simp⟩
      · exact fun digit hdigit => h digit (List.mem_of_mem_take hdigit)
      · exact fun digit hdigit => h digit (List.mem_of_mem_drop hdigit)

/-- A decimal with an exponent is a numeral, whatever sign the exponent has. -/
theorem numeral_scientific {plus : String} (hplus : Numeral plus) {d : Digits}
    (h : ∀ digit ∈ d.digits, digit < 10) :
    Numeral (scientific plus d) ∧ scientific plus d ≠ "" := by
  have hsign : Numeral (if d.exponent < 0 then "-" else plus) := by
    split
    · decide
    · exact hplus
  unfold scientific
  -- There is a point after the first digit if there are more.
  split
  next first second rest hdigits =>
    obtain ⟨hfirst, hrest⟩ := List.forall_mem_cons.mp (hdigits ▸ h)
    refine ⟨.append (.append (.append (.append (.append ?_ (by decide)) ?_) (by decide)) hsign)
      (numeral_toString _), by simp⟩
    · exact numeral_digitText (List.forall_mem_singleton.mpr hfirst)
    · exact numeral_digitText hrest
  next =>
    exact ⟨.append (.append (.append (numeral_digitText h) (by decide)) hsign)
      (numeral_toString _), by simp⟩

/-- A number is written with the characters of numbers, in any layout with such a sign. -/
theorem numeral_write {layout : Layout} (hplus : Numeral layout.plus) (x : Binary64) :
    Numeral (layout.write x) ∧ layout.write x ≠ "" := by
  have hpositional := numeral_positional (shortest_lt x)
  have hscientific := numeral_scientific hplus (shortest_lt x)
  unfold Layout.write
  simp only
  split_ifs
  · exact ⟨.append (by decide) hpositional.1, by simp⟩
  · exact ⟨.append (by decide) hscientific.1, by simp⟩
  · exact hpositional
  · exact hscientific

end Decimal

/-- A number is written as a numeral. -/
theorem Json.Number.numeral_write (value : Number) : Numeral value.write ∧ value.write ≠ "" := by
  cases value with
  | integer value =>
    cases value with
    | ofNat n => exact ⟨numeral_toString n, toString_ne_empty n⟩
    | negSucc n =>
      have hminus : Number.write (.integer (.negSucc n)) = "-" ++ toString (n + 1) := rfl
      rw [hminus]
      exact ⟨.append (by decide) (numeral_toString _), by simp⟩
  | binary value => exact Decimal.numeral_write (by decide) value

/-! ### Strings and lists -/

namespace Literal

/-- Inside a string, a character is read as escaped. -/
theorem runWord_escapeChar (pending : List Char) (c : Char) :
    Text.Scan.runWord ⟨.string false, pending⟩ (escapeChar c) = some ⟨.string false, pending⟩ := by
  unfold escapeChar
  split
  · rfl
  · split
    · rfl
    next hbackslash hquote =>
      have hmark : c ≠ Text.quoteMark false := hquote
      have htop : (⟨.string false, pending⟩ : Text.Scan) ≠ top := by simp [top, within]
      simp [Text.Scan.runWord, Text.Scan.wordStep, Text.Scan.step, htop, hmark, hbackslash]

/-- Escaped characters do not end the string that they stand in. -/
theorem runWord_escapeChars (pending chars : List Char) :
    Text.Scan.runWord ⟨.string false, pending⟩ (chars.flatMap escapeChar) =
      some ⟨.string false, pending⟩ := by
  induction chars with
  | nil => rfl
  | cons c rest ih =>
    rw [List.flatMap_cons, Text.Scan.runWord_append (runWord_escapeChar pending c)]
    exact ih

/-- A string begins an atom, whatever it contains. -/
theorem opening_quote (text : String) : Opening (quote text) := by
  have hmark : "'".toList = ['\x27'] := rfl
  have hchars : (quote text).toList =
      ['\x27'] ++ text.toList.flatMap escapeChar ++ ['\x27'] := by simp [quote, hmark]
  have hopen : top.runWord ['\x27'] = some ⟨.string false, []⟩ := rfl
  have hsolid : Solid (quote text) [] [] := by
    have hrun := (Text.Scan.runWord_append hopen (text.toList.flatMap escapeChar)).trans
      (runWord_escapeChars [] text.toList)
    unfold Solid
    rw [hchars]
    exact Text.Scan.runWord_append hrun ['\x27']
  have hmem : '\x27' ∈ (quote text).toList := by simp [hchars]
  exact Text.opening_of_mem hsolid (by simp [hchars]) hmem (by decide)

mutual
/-- A literal without a map is a word that can begin an atom. -/
theorem opening_write (value : Json) (h : value.holdsObject = false) : Opening (write value) := by
  match value with
  | .null => exact ⟨show Text.Word "NULL" by decide, by decide, by decide⟩
  | .string text => exact opening_quote text
  | .array items =>
    have hcomma : Spans ", " [] [] := by decide
    exact Text.opening_list (.join hcomma (spans_writeAll items h))
  | .bool true => exact ⟨show Text.Word "true" by decide, by decide, by decide⟩
  | .bool false => exact ⟨show Text.Word "false" by decide, by decide, by decide⟩
  | .number value =>
    obtain ⟨hnumeral, hstart⟩ := value.numeral_write
    exact hnumeral.opening hstart
  | .object entries => simp [Json.holdsObject] at h
termination_by structural value

/-- Values without maps close their brackets. -/
theorem spans_writeAll (items : List Json) (h : Json.holdsObjectAny items = false) :
    ∀ text ∈ writeAll items, Spans text [] [] := by
  cases items with
  | nil => simp [writeAll]
  | cons item items =>
    simp only [Json.holdsObjectAny, Bool.or_eq_false_iff] at h
    rw [writeAll, List.forall_mem_cons]
    exact ⟨(opening_write item h.1).solid.spans, spans_writeAll items h.2⟩
termination_by structural items
end

end Literal

end GraphRead
