import GraphRead.Proofs.Text.Scanning

/-!
# Reading conditions

A reader for the Boolean structure of a condition. It splits the text into words at
the blanks outside of quotes and brackets, the words into alternatives at `OR`,
those into operands at `AND`, and goes on inside an operand that is one pair of
parentheses. `NOT` in front of an operand negates it, and every other operand is
an atom: a comparison, an existence test or a quantifier over a list. A word that
is directly followed by an opening parenthesis is the name of a function.
-/

namespace GraphRead

open Text (Spans Solid)
open Text.Scan (top)

/-- The Boolean structure of a condition. -/
inductive Formula where
  | atom (text : String)
  | all (parts : List Formula)
  | any (parts : List Formula)
  | not (part : Formula)

namespace Text

/-- The pieces between the blanks that stand outside of quotes and brackets. There is no answer
if a quotation or a bracket is not closed. -/
def Scan.pieces (state : Scan) : List Char → Option (List (List Char))
  | [] => if state = top then some [[]] else none
  | c :: rest =>
    if state = top ∧ c.isWhitespace = true then (pieces top rest).map ([] :: ·)
    else (state.step c).bind fun next => (next.pieces rest).map (List.modifyHead (c :: ·))

/-- The words of a text. -/
def splitWords (text : String) : Option (List String) :=
  (top.pieces text.toList).map fun pieces => (pieces.filter (! ·.isEmpty)).map String.ofList

/-- What stands between parentheses, if the text is one pair of them with what they enclose. -/
def enclosed? (text : String) : Option String :=
  match text.toList with
  | '(' :: rest =>
    if rest.getLast? = some ')' ∧ top.run rest.dropLast = some top then
      some (String.ofList rest.dropLast)
    else none
  | _ => none

/-- A text is one pair of parentheses with what they enclose. -/
def Enclosed (text : String) : Prop := ∃ inner, text = "(" ++ inner ++ ")" ∧ Spans inner [] []

end Text

open Text (splitWords enclosed? Enclosed)

namespace Formula

/-- The parts of a junction as one formula: a single part is the formula itself. -/
def collapse (junction : List Formula → Formula) : List Formula → Formula
  | [part] => part
  | parts => junction parts

/-- The operand that words form. What parentheses enclose is read by `group`. -/
def operand (group : String → Option Formula) : List String → Option Formula
  | [] => none
  | word :: rest =>
    if word = "NOT" then (operand group rest).map .not
    else if rest.isEmpty then
      match enclosed? word with
      | some inner => group inner
      | none => some (.atom word)
    else some (.atom (Text.join " " (word :: rest)))

/-- Operands with `AND` between them. -/
def conjunction (group : String → Option Formula) (words : List String) : Option Formula :=
  ((words.splitOn "AND").mapM (operand group)).map (collapse .all)

/-- Conjunctions with `OR` between them. -/
def disjunction (group : String → Option Formula) (words : List String) : Option Formula :=
  ((words.splitOn "OR").mapM (conjunction group)).map (collapse .any)

/-- Reads a text with fewer than `depth` parentheses inside each other. -/
def readWith : Nat → String → Option Formula
  | 0, _ => none
  | depth + 1, text => (splitWords text).bind (disjunction (readWith depth))

/-- The Boolean structure of a text. There are fewer parentheses in it than characters. -/
def read (text : String) : Option Formula := readWith (text.length + 1) text

end Formula

/-! ### Words -/

namespace Text

variable {word : List Char} {state : Scan}

/-- A word is a single piece. -/
theorem Scan.pieces_word (h : state.runWord word = some top) : state.pieces word = some [word] := by
  induction word generalizing state with
  | nil =>
    cases h
    rfl
  | cons c rest ih =>
    rw [runWord_cons, Option.bind_eq_some_iff] at h
    obtain ⟨next, hstep, hrest⟩ := h
    have hinside : ¬ (state = top ∧ c.isWhitespace = true) := by
      intro hend
      rw [wordStep, if_pos hend] at hstep
      cases hstep
    rw [pieces, if_neg hinside, step_of_wordStep hstep, Option.bind_some, ih hrest]
    rfl

/-- A word before a blank is the first piece. -/
theorem Scan.pieces_append (h : state.runWord word = some top) (rest : List Char) :
    state.pieces (word ++ ' ' :: rest) = (top.pieces rest).map (word :: ·) := by
  induction word generalizing state with
  | nil =>
    cases h
    rw [List.nil_append, pieces, if_pos ⟨rfl, by decide⟩]
  | cons c others ih =>
    rw [runWord_cons, Option.bind_eq_some_iff] at h
    obtain ⟨next, hstep, hothers⟩ := h
    have hinside : ¬ (state = top ∧ c.isWhitespace = true) := by
      intro hend
      rw [wordStep, if_pos hend] at hstep
      cases hstep
    rw [List.cons_append, pieces, if_neg hinside, step_of_wordStep hstep, Option.bind_some,
      ih hothers, Option.map_map]
    rfl

/-- Texts that are read as one word each are the words of what they form. -/
theorem splitWords_join {words : List String} (h : ∀ word ∈ words, word ≠ "" ∧ Solid word [] []) :
    splitWords (join " " words) = some words := by
  have hpieces : words ≠ [] → top.pieces (join " " words).toList =
      some (words.map String.toList) := by
    intro hne
    induction words with
    | nil => exact absurd rfl hne
    | cons word rest ih =>
      obtain ⟨hword, hrest⟩ := List.forall_mem_cons.mp h
      cases rest with
      | nil => exact Scan.pieces_word hword.2
      | cons next others =>
        have hsolid : top.runWord word.toList = some top := hword.2
        have hblank : " ".toList = [' '] := rfl
        rw [join, String.toList_append, String.toList_append, hblank, List.append_assoc,
          List.singleton_append, Scan.pieces_append hsolid, ih hrest (by simp)]
        rfl
  -- No word is empty, so that none is lost with the pieces between two blanks.
  have hfilter : (words.map String.toList).filter (! ·.isEmpty) = words.map String.toList := by
    rw [List.filter_eq_self]
    rintro chars hchars
    obtain ⟨word, hword, rfl⟩ := List.mem_map.mp hchars
    simpa using (h word hword).1
  cases words with
  | nil => rfl
  | cons word rest =>
    rw [splitWords, hpieces (by simp), Option.map_some, hfilter, List.map_map]
    simp [Function.comp_def]

/-- Joining two lists joins each and puts one more separator between them. -/
theorem join_append (separator : String) {first second : List String} (hfirst : first ≠ [])
    (hsecond : second ≠ []) : join separator (first ++ second) =
      join separator first ++ separator ++ join separator second := by
  induction first with
  | nil => exact absurd rfl hfirst
  | cons piece rest ih =>
    cases rest with
    | nil =>
      obtain ⟨next, others, rfl⟩ := List.exists_cons_of_ne_nil hsecond
      rfl
    | cons next others =>
      rw [List.cons_append, List.cons_append, join, ← List.cons_append, ih (by simp), join]
      simp only [String.append_assoc]

/-- A word among groups with a keyword between them is the keyword, or it is in a group. -/
theorem mem_intercalate {keyword word : String} {groups : List (List String)}
    (h : word ∈ [keyword].intercalate groups) :
    word = keyword ∨ ∃ words ∈ groups, word ∈ words := by
  induction groups with
  | nil => simp at h
  | cons words rest ih =>
    cases rest with
    | nil => exact .inr ⟨words, by simp, by simpa using h⟩
    | cons next others =>
      simp only [List.intercalate_cons_cons, List.mem_append, List.mem_singleton] at h
      rcases h with (h | h) | h
      · exact .inr ⟨words, by simp, h⟩
      · exact .inl h
      · exact (ih h).imp_right fun ⟨group, hgroup, hmem⟩ =>
          ⟨group, List.mem_cons_of_mem words hgroup, hmem⟩

/-- A piece is not longer than what it is joined to. -/
theorem length_le_join (separator : String) {piece : String} {pieces : List String}
    (h : piece ∈ pieces) : piece.length ≤ (join separator pieces).length := by
  induction pieces with
  | nil => simp at h
  | cons first rest ih =>
    cases rest with
    | nil =>
      obtain rfl : piece = first := by simpa using h
      exact Nat.le_refl _
    | cons next others =>
      rw [join, String.length_append, String.length_append]
      rcases List.mem_cons.mp h with rfl | h
      · omega
      · have := ih h
        omega

/-- Groups of words with a word between them. -/
theorem join_intercalate (keyword : String) {groups : List (List String)}
    (h : ∀ words ∈ groups, words ≠ []) :
    join " " ([keyword].intercalate groups) =
      join (" " ++ keyword ++ " ") (groups.map (join " ")) := by
  induction groups with
  | nil => rfl
  | cons words rest ih =>
    obtain ⟨hwords, hrest⟩ := List.forall_mem_cons.mp h
    cases rest with
    | nil => simp [join]
    | cons next others =>
      have hlater : [keyword].intercalate (next :: others) ≠ [] := by
        have hnext := hrest next List.mem_cons_self
        cases others <;> simp [List.intercalate_cons_cons, hnext]
      rw [List.intercalate_cons_cons, join_append " " (by simp) hlater,
        join_append " " hwords (by simp), ih hrest, List.map_cons, List.map_cons, join]
      simp [join, String.append_assoc]

end Text

/-! ### Phrases -/

/-- A word of a text that is read as an operand. -/
structure Text.Word (word : String) : Prop where
  nonempty : word ≠ ""
  solid : Solid word [] []
  ne_and : word ≠ "AND"
  ne_or : word ≠ "OR"

instance (word : String) : Decidable (Text.Word word) :=
  decidable_of_iff (word ≠ "" ∧ Solid word [] [] ∧ word ≠ "AND" ∧ word ≠ "OR")
    ⟨fun h => ⟨h.1, h.2.1, h.2.2.1, h.2.2.2⟩, fun h => ⟨h.nonempty, h.solid, h.ne_and, h.ne_or⟩⟩

open Text (Word)

/-- A text is made of the words, of which there is one at least. -/
structure Text.Phrase (text : String) (words : List String) : Prop where
  joined : text = join " " words
  nonempty : words ≠ []
  word : ∀ word ∈ words, Word word

namespace Text.Phrase

variable {first second text word : String} {before after words : List String}

/-- A word is a phrase. -/
theorem single (h : Word word) : Phrase word [word] := ⟨rfl, by simp, by simpa using h⟩

/-- Phrases with a blank between them are a phrase. -/
theorem append (hfirst : Phrase first before) (hsecond : Phrase second after) :
    Phrase (first ++ " " ++ second) (before ++ after) where
  joined := by
    rw [join_append " " hfirst.nonempty hsecond.nonempty, ← hfirst.joined, ← hsecond.joined]
  nonempty := by simp [hfirst.nonempty]
  word := List.forall_mem_append.mpr ⟨hfirst.word, hsecond.word⟩

/-- A phrase is split into its words. -/
theorem splitWords (h : Phrase text words) : splitWords text = some words := by
  rw [h.joined]
  exact splitWords_join fun word hword => ⟨(h.word word hword).nonempty, (h.word word hword).solid⟩

/-- A phrase closes its quotations and brackets. -/
theorem spans (h : Phrase text words) : Spans text [] [] := by
  rw [h.joined]
  exact .join (by decide) fun word hword => (h.word word hword).solid.spans

/-- A phrase is a single alternative. -/
theorem splitOn_or (h : Phrase text words) : words.splitOn "OR" = [words] := by
  refine List.splitOn_eq_singleton_of_beq_eq_false fun word hword => ?_
  exact beq_eq_false_iff_ne.mpr (h.word word hword).ne_or

/-- A phrase is a single operand. -/
theorem splitOn_and (h : Phrase text words) : words.splitOn "AND" = [words] := by
  refine List.splitOn_eq_singleton_of_beq_eq_false fun word hword => ?_
  exact beq_eq_false_iff_ne.mpr (h.word word hword).ne_and

end Text.Phrase

open Text (Phrase)

namespace Text

/-- A word in which not all characters are capital letters is no keyword. -/
theorem word_of_mem {word : String} {c : Char} (hsolid : Solid word [] []) (hc : c ∈ word.toList)
    (hlower : c.isUpper = false) : Word word ∧ word ≠ "NOT" := by
  have hne (keyword : String) (hkeyword : keyword.toList.all Char.isUpper = true) :
      word ≠ keyword := by
    rintro rfl
    simp [List.all_eq_true.mp hkeyword c hc] at hlower
  exact ⟨⟨hne "" (by decide), hsolid, hne "AND" (by decide), hne "OR" (by decide)⟩,
    hne "NOT" (by decide)⟩

/-- What stands in parentheses is found, if it closes its brackets. -/
theorem enclosed?_eq {inner : String} (h : Spans inner [] []) :
    enclosed? ("(" ++ inner ++ ")") = some inner := by
  have hopen : "(".toList = ['('] := rfl
  have hclose : ")".toList = [')'] := rfl
  have hrun : Scan.run top inner.toList = some top := h
  simp [enclosed?, hopen, hclose, hrun]

/-- A text that does not begin with a parenthesis is not enclosed. -/
theorem enclosed?_eq_none {word : String} (h : word.toList.head? ≠ some '(') :
    enclosed? word = none := by
  unfold enclosed?
  split
  next rest hchars => simp [hchars] at h
  next => rfl

/-- What is enclosed in parentheses is one word, and not the keyword of negation. -/
theorem word_enclosed {inner : String} (h : Spans inner [] []) :
    Word ("(" ++ inner ++ ")") ∧ "(" ++ inner ++ ")" ≠ "NOT" := by
  have hopen : "(".toList = ['('] := rfl
  have hsolid : Solid ("(" ++ inner ++ ")") [] [] :=
    .between (by decide) (show Solid "(" [] [')'] by decide) h (by decide)
  exact word_of_mem hsolid (show '(' ∈ ("(" ++ inner ++ ")").toList by simp [hopen]) (by decide)

/-- A word that begins an atom. -/
structure Opening (word : String) : Prop extends Word word where
  ne_not : word ≠ "NOT"
  no_paren : word.toList.head? ≠ some '('

/-- A word with a character that is no capital letter is no keyword, so that it begins an atom. -/
theorem opening_of_mem {word : String} {c : Char} (hsolid : Solid word [] [])
    (hparen : word.toList.head? ≠ some '(') (hc : c ∈ word.toList) (hlower : c.isUpper = false) :
    Opening word := by
  obtain ⟨hword, hnot⟩ := word_of_mem hsolid hc hlower
  exact ⟨hword, hnot, hparen⟩

/-- A list begins an atom, if its items close their brackets. -/
theorem opening_list {text : String} (h : Spans text [] []) : Opening ("[" ++ text ++ "]") := by
  have hchars : "[".toList = ['['] := rfl
  have hopens : Solid "[" [] [']'] := by decide
  have hsolid : Solid ("[" ++ text ++ "]") [] [] := .between (by decide) hopens h (by decide)
  have hmem : '[' ∈ ("[" ++ text ++ "]").toList := by simp [hchars]
  exact opening_of_mem hsolid (by simp [hchars]) hmem (by decide)

end Text

namespace Formula

/-- A text is read as an operand, and if it begins with a parenthesis, it stands in parentheses. -/
structure Reads (text : String) (formula : Formula) : Prop where
  operand : ∃ words, Phrase text words ∧
    ∀ depth, text.length ≤ depth → operand (readWith depth) words = some formula
  enclosed : text.toList.head? = some '(' → Enclosed text

variable {text : String} {formula : Formula}

/-- What is read closes its quotations and brackets. -/
theorem Reads.spans (h : Reads text formula) : Spans text [] [] := by
  obtain ⟨words, hphrase, -⟩ := h.operand
  exact hphrase.spans

/-- What is read as an operand is read alone as the same. -/
theorem Reads.readWith (h : Reads text formula) {depth : Nat} (hdepth : text.length < depth) :
    readWith depth text = some formula := by
  obtain ⟨words, hphrase, hoperand⟩ := h.operand
  obtain ⟨depth, rfl⟩ := Nat.exists_eq_succ_of_ne_zero (Nat.ne_zero_of_lt hdepth)
  rw [Formula.readWith, hphrase.splitWords, Option.bind_some, disjunction, hphrase.splitOn_or]
  simp [conjunction, hphrase.splitOn_and, hoperand depth (Nat.le_of_lt_succ hdepth), collapse]

/-- What is read as an operand is read by itself. -/
theorem Reads.read (h : Reads text formula) : read text = some formula :=
  h.readWith (Nat.lt_succ_self _)

/-- A phrase with an opening word is an atom. -/
theorem reads_atom {first : String} {rest : List String} (h : Phrase text (first :: rest))
    (hfirst : Text.Opening first) : Reads text (.atom text) where
  operand := by
    refine ⟨first :: rest, h, fun depth _ => ?_⟩
    rw [Formula.operand, if_neg hfirst.ne_not]
    cases rest with
    | nil => rw [List.isEmpty_nil, if_pos rfl, Text.enclosed?_eq_none hfirst.no_paren, h.joined,
        Text.join]
    | cons next others => rw [List.isEmpty_cons, if_neg (by simp), ← h.joined]
  enclosed := by
    intro hhead
    obtain ⟨c, chars, hchars⟩ := List.exists_cons_of_ne_nil
      (mt String.toList_eq_nil_iff.mp hfirst.nonempty)
    have hsame : text.toList.head? = first.toList.head? := by
      rw [h.joined]
      cases rest <;> simp [Text.join, hchars]
    exact absurd (hsame ▸ hhead) hfirst.no_paren

/-- What parentheses enclose is read apart. -/
theorem reads_group {inner : String} (hspans : Spans inner [] [])
    (hread : ∀ depth, inner.length < depth → readWith depth inner = some formula) :
    Reads ("(" ++ inner ++ ")") formula where
  operand := by
    obtain ⟨hword, hnot⟩ := Text.word_enclosed hspans
    refine ⟨_, .single hword, fun depth hdepth => ?_⟩
    rw [Formula.operand, if_neg hnot, List.isEmpty_nil, if_pos rfl, Text.enclosed?_eq hspans]
    refine hread depth (Nat.lt_of_lt_of_le ?_ hdepth)
    simp only [String.length_append]
    have hopen : "(".length = 1 := rfl
    omega
  enclosed _ := ⟨inner, rfl, hspans⟩

/-- The negation of what is read is read as its negation. -/
theorem Reads.negation (h : Reads text formula) : Reads ("NOT " ++ text) (.not formula) where
  operand := by
    obtain ⟨words, hphrase, hoperand⟩ := h.operand
    have hnot : Phrase "NOT" ["NOT"] := .single (by decide)
    refine ⟨"NOT" :: words, hnot.append hphrase, fun depth hdepth => ?_⟩
    rw [Formula.operand, if_pos rfl, hoperand depth ?_]
    · rfl
    · rw [String.length_append] at hdepth
      omega
  enclosed hhead := by simp [show "NOT ".toList = ['N', 'O', 'T', ' '] from rfl] at hhead

section Junctions

/-- What holds of every related member holds of each. -/
theorem forall_of_forall₂ {α β : Type} {related : α → β → Prop} {holds : α → Prop} {as : List α}
    {bs : List β} (h : List.Forall₂ related as bs) (himp : ∀ a b, related a b → holds a) :
    ∀ a ∈ as, holds a := by
  induction h with
  | nil => simp
  | cons hfirst _ ih => exact List.forall_mem_cons.mpr ⟨himp _ _ hfirst, ih⟩

/-- If each member gives a result, all of them do. -/
theorem mapM_of_forall₂ {α β : Type} {f : α → Option β} {as : List α} {bs : List β}
    (h : List.Forall₂ (fun a b => f a = some b) as bs) : as.mapM f = some bs := by
  induction h with
  | nil => rfl
  | cons hfirst _ ih => simp [List.mapM_cons, hfirst, ih]

/-- Two parts or more are not collapsed. -/
theorem collapse_of_two_le (junction : List Formula → Formula) {formulas : List Formula}
    (h : 2 ≤ formulas.length) : collapse junction formulas = junction formulas := by
  match formulas, h with
  | _ :: _ :: _, _ => rfl

/-- The words form an operand for a reader of groups. -/
def Forms (group : String → Option Formula) (words : List String) (formula : Formula) : Prop :=
  Phrase (Text.join " " words) words ∧ operand group words = some formula

variable {group : String → Option Formula} {groups : List (List String)} {formulas : List Formula}

/-- The words of texts that are read as operands. -/
theorem exists_groups {texts : List String} (h : List.Forall₂ Reads texts formulas) :
    ∃ groups : List (List String), texts = groups.map (Text.join " ") ∧ ∀ depth,
      (∀ text ∈ texts, text.length ≤ depth) →
        List.Forall₂ (Forms (readWith depth)) groups formulas := by
  induction h with
  | nil => exact ⟨[], rfl, fun _ _ => .nil⟩
  | cons hfirst _ ih =>
    obtain ⟨words, hphrase, hoperand⟩ := hfirst.operand
    obtain ⟨groups, rfl, hrest⟩ := ih
    refine ⟨words :: groups, by rw [List.map_cons, ← hphrase.joined], fun depth hdepth => ?_⟩
    obtain ⟨hlength, hlengths⟩ := List.forall_mem_cons.mp hdepth
    exact .cons ⟨hphrase.joined ▸ hphrase, hoperand depth hlength⟩ (hrest depth hlengths)

variable (h : List.Forall₂ (Forms group) groups formulas)

include h

/-- The words of operands with a keyword between them. -/
theorem splitWords_junction {keyword : String} (hkeyword : keyword ≠ "" ∧ Solid keyword [] []) :
    splitWords (Text.join (" " ++ keyword ++ " ") (groups.map (Text.join " "))) =
      some ([keyword].intercalate groups) := by
  have hphrase := forall_of_forall₂ h fun _ _ hforms => hforms.1
  rw [← Text.join_intercalate keyword fun words hmem => (hphrase words hmem).nonempty]
  refine Text.splitWords_join fun word hword => ?_
  rcases Text.mem_intercalate hword with rfl | ⟨words, hmem, hword⟩
  · exact hkeyword
  · have hfine := (hphrase words hmem).word word hword
    exact ⟨hfine.nonempty, hfine.solid⟩

variable (hgroups : groups ≠ []) (hlength : 2 ≤ formulas.length)

include hgroups hlength

/-- Operands with a conjunction between them are read as their conjunction. -/
theorem disjunction_and :
    disjunction group (["AND"].intercalate groups) = some (.all formulas) := by
  have hphrase := forall_of_forall₂ h fun _ _ hforms => hforms.1
  have hor : (["AND"].intercalate groups).splitOn "OR" = [["AND"].intercalate groups] := by
    refine List.splitOn_eq_singleton_of_beq_eq_false fun word hword => ?_
    rcases Text.mem_intercalate hword with rfl | ⟨words, hmem, hword⟩
    · decide
    · exact beq_eq_false_iff_ne.mpr ((hphrase words hmem).word word hword).ne_or
  have hand : (["AND"].intercalate groups).splitOn "AND" = groups :=
    List.splitOn_intercalate "AND"
      (fun words hmem hword => ((hphrase words hmem).word _ hword).ne_and rfl) hgroups
  have hread := mapM_of_forall₂ (h.imp fun _ _ hforms => hforms.2)
  have hconjunction : conjunction group (["AND"].intercalate groups) = some (.all formulas) := by
    rw [conjunction, hand, hread, Option.map_some, collapse_of_two_le .all hlength]
  rw [disjunction, hor]
  simp [hconjunction, collapse]

/-- Operands with a disjunction between them are read as their disjunction. -/
theorem disjunction_or :
    disjunction group (["OR"].intercalate groups) = some (.any formulas) := by
  have hphrase := forall_of_forall₂ h fun _ _ hforms => hforms.1
  have hor : (["OR"].intercalate groups).splitOn "OR" = groups :=
    List.splitOn_intercalate "OR"
      (fun words hmem hword => ((hphrase words hmem).word _ hword).ne_or rfl) hgroups
  have hread : groups.mapM (conjunction group) = some formulas := by
    refine mapM_of_forall₂ (h.imp fun words formula hforms => ?_)
    simp [conjunction, hforms.1.splitOn_and, hforms.2, collapse]
  rw [disjunction, hor, hread, Option.map_some, collapse_of_two_le .any hlength]

end Junctions

/-- Operands with a keyword between them and parentheses around. -/
theorem reads_junction {keyword : String} {junction : List Formula → Formula}
    (hkeyword : keyword ≠ "" ∧ Solid keyword [] [])
    (hread : ∀ {group : String → Option Formula} {groups : List (List String)}
      {formulas : List Formula}, List.Forall₂ (Forms group) groups formulas → groups ≠ [] →
        2 ≤ formulas.length →
          disjunction group ([keyword].intercalate groups) = some (junction formulas))
    {texts : List String} {formulas : List Formula} (h : List.Forall₂ Reads texts formulas)
    (hlength : 2 ≤ texts.length) :
    Reads ("(" ++ Text.join (" " ++ keyword ++ " ") texts ++ ")") (junction formulas) := by
  have hseparator : Spans (" " ++ keyword ++ " ") [] [] :=
    .append (.append (by decide) hkeyword.2.spans) (show Spans " " [] [] by decide)
  have hspans := forall_of_forall₂ h fun _ _ hreads => hreads.spans
  refine reads_group (.join hseparator hspans) fun depth hdepth => ?_
  obtain ⟨depth, rfl⟩ := Nat.exists_eq_succ_of_ne_zero (Nat.ne_zero_of_lt hdepth)
  obtain ⟨groups, rfl, hgroups⟩ := exists_groups h
  -- What the branches need of the depth is less than what the whole text has.
  have hforms := hgroups depth fun text htext =>
    Nat.le_trans (Text.length_le_join _ htext) (Nat.le_of_lt_succ hdepth)
  rw [readWith, splitWords_junction hforms hkeyword, Option.bind_some]
  refine hread hforms ?_ (h.length_eq ▸ hlength)
  rintro rfl
  simp at hlength

/-- The conjunction of operands. -/
theorem reads_all {texts : List String} {formulas : List Formula}
    (h : List.Forall₂ Reads texts formulas) (hlength : 2 ≤ texts.length) :
    Reads ("(" ++ Text.join (" " ++ "AND" ++ " ") texts ++ ")") (.all formulas) :=
  reads_junction (by decide) disjunction_and h hlength

/-- The disjunction of operands. -/
theorem reads_any {texts : List String} {formulas : List Formula}
    (h : List.Forall₂ Reads texts formulas) (hlength : 2 ≤ texts.length) :
    Reads ("(" ++ Text.join (" " ++ "OR" ++ " ") texts ++ ")") (.any formulas) :=
  reads_junction (by decide) disjunction_or h hlength

end Formula

end GraphRead
