import GraphRead.Text.Identifier
import GraphRead.Text.Lines
import Mathlib.Data.List.Basic

/-!
# Contained texts

A text is read from the left, and every backtick in it opens or closes a
quotation. A contained text closes all its quotations, and what stands outside
of them consists of a few characters of ASCII and of brackets that match. Texts
put together from contained ones are contained, every name is contained as a
query writes it, and so is a contained text after indentation, which splits it
into lines without looking at its quotations.
-/

namespace GraphRead.Text

/-- Whether a quotation is open after the characters. -/
def endsQuoted (quoted : Bool) : List Char → Bool
  | [] => quoted
  | c :: rest => endsQuoted (if c = '\x60' then !quoted else quoted) rest

/-- The characters that stand outside quotations. -/
def unquoted (quoted : Bool) : List Char → List Char
  | [] => []
  | c :: rest =>
    if c = '\x60' then unquoted (!quoted) rest
    else if quoted then unquoted quoted rest
    else c :: unquoted quoted rest

/-- The characters that a query is written with, apart from what it quotes. -/
def isSyntactic (c : Char) : Bool :=
  c.isAlphanum || "\n _.,:$()[]\x7b\x7d<>=~|*-".toList.contains c

/-- The brackets still to be closed after a character, the innermost first. There is no answer if
the character closes a bracket that is not the innermost one. -/
def bracketStep (pending : List Char) (c : Char) : Option (List Char) :=
  if c = '(' then some (')' :: pending)
  else if c = '[' then some (']' :: pending)
  else if c = '\x7b' then some ('\x7d' :: pending)
  else if c = ')' ∨ c = ']' ∨ c = '\x7d' then
    if pending.head? = some c then some pending.tail else none
  else some pending

/-- The brackets still to be closed after the characters. -/
def brackets (pending : List Char) (chars : List Char) : Option (List Char) :=
  chars.foldlM bracketStep pending

/-- A text closes its quotations, outside of them it is syntactic, and it leads from brackets that
are to be closed before it to those that are to be closed after it. -/
structure Leads (text : String) (before after : List Char) : Prop where
  closed : endsQuoted false text.toList = false
  syntactic : (unquoted false text.toList).all isSyntactic = true
  nested : brackets before (unquoted false text.toList) = some after

/-- A text that leaves nothing open. -/
def Contained (text : String) : Prop := Leads text [] []

instance (text : String) (before after : List Char) : Decidable (Leads text before after) :=
  decidable_of_iff
    (endsQuoted false text.toList = false ∧ (unquoted false text.toList).all isSyntactic = true ∧
      brackets before (unquoted false text.toList) = some after)
    ⟨fun h => ⟨h.1, h.2.1, h.2.2⟩, fun h => ⟨h.closed, h.syntactic, h.nested⟩⟩

instance (text : String) : Decidable (Contained text) :=
  inferInstanceAs (Decidable (Leads text [] []))

/-! ### Reading texts in parts -/

/-- A quotation is open after two texts as it is after the second, from how the first ends. -/
theorem endsQuoted_append (quoted : Bool) (first second : List Char) :
    endsQuoted quoted (first ++ second) = endsQuoted (endsQuoted quoted first) second := by
  induction first generalizing quoted with
  | nil => rfl
  | cons c rest ih => simp only [List.cons_append, endsQuoted, ih]

/-- What stands outside quotations in two texts stands there in each, from how the first ends. -/
theorem unquoted_append (quoted : Bool) (first second : List Char) :
    unquoted quoted (first ++ second) =
      unquoted quoted first ++ unquoted (endsQuoted quoted first) second := by
  induction first generalizing quoted with
  | nil => rfl
  | cons c rest ih =>
    simp only [List.cons_append, unquoted, endsQuoted, ih]
    split
    · rfl
    · split <;> rfl

/-- A character reads only the innermost bracket, so there may be more around. -/
theorem bracketStep_frame {pending after : List Char} {c : Char}
    (h : bracketStep pending c = some after) (more : List Char) :
    bracketStep (pending ++ more) c = some (after ++ more) := by
  unfold bracketStep at h ⊢
  split_ifs at h ⊢ with hparen hbracket hbrace hclose htop
  all_goals cases h
  all_goals try rfl
  all_goals cases pending <;> simp_all

/-- Brackets around a text stay as they are. -/
theorem brackets_frame {pending after chars : List Char} (h : brackets pending chars = some after)
    (more : List Char) : brackets (pending ++ more) chars = some (after ++ more) := by
  induction chars generalizing pending with
  | nil =>
    cases h
    rfl
  | cons c rest ih =>
    simp only [brackets, List.foldlM_cons, Option.bind_eq_bind, Option.bind_eq_some_iff] at h ⊢
    obtain ⟨middle, hstep, hrest⟩ := h
    exact ⟨middle ++ more, bracketStep_frame hstep more, ih hrest⟩

namespace Leads

variable {first second text : String} {before middle after : List Char}

/-- Texts lead one after the other, if the second starts from where the first ends. -/
theorem append (hfirst : Leads first before middle) (hsecond : Leads second middle after) :
    Leads (first ++ second) before after where
  closed := by rw [String.toList_append, endsQuoted_append, hfirst.closed, hsecond.closed]
  syntactic := by
    rw [String.toList_append, unquoted_append, hfirst.closed, List.all_append, hfirst.syntactic,
      hsecond.syntactic]
    rfl
  nested := by
    rw [String.toList_append, unquoted_append, hfirst.closed, brackets, List.foldlM_append]
    exact Option.bind_eq_some_iff.mpr ⟨middle, hfirst.nested, hsecond.nested⟩

/-- A text leads so with more brackets around it. -/
theorem frame (h : Leads text before after) (more : List Char) :
    Leads text (before ++ more) (after ++ more) where
  closed := h.closed
  syntactic := h.syntactic
  nested := brackets_frame h.nested more

end Leads

namespace Contained

variable {first second text : String}

/-- A contained text may stand inside any brackets. -/
theorem leads (h : Contained text) (pending : List Char) : Leads text pending pending :=
  Leads.frame h pending

/-- Contained texts in a row are contained. -/
theorem append (hfirst : Contained first) (hsecond : Contained second) :
    Contained (first ++ second) := Leads.append hfirst hsecond

/-- A contained text between texts that open and close a bracket. -/
theorem between {pending : List Char} (hfirst : Leads first [] pending) (h : Contained text)
    (hsecond : Leads second pending []) : Contained (first ++ text ++ second) :=
  (hfirst.append (h.leads pending)).append hsecond

/-- Contained pieces are contained when joined by a contained separator. -/
theorem join {separator : String} (hseparator : Contained separator) {pieces : List String}
    (h : ∀ piece ∈ pieces, Contained piece) : Contained (join separator pieces) := by
  match pieces with
  | [] => exact show Contained "" by decide
  | [piece] => exact h piece (by simp)
  | piece :: next :: rest =>
    rw [Text.join]
    refine ((h piece (by simp)).append hseparator).append ?_
    exact join hseparator fun other hother => h other (List.mem_cons_of_mem piece hother)

/-- Contained pieces are contained when put together. -/
theorem concat {pieces : List String} (h : ∀ piece ∈ pieces, Contained piece) :
    Contained (String.join pieces) := by
  induction pieces with
  | nil => exact show Contained "" by decide
  | cons piece rest ih =>
    rw [String.join_cons]
    exact (h piece (by simp)).append (ih fun other hother => h other (by simp [hother]))

end Contained

/-! ### Names -/

/-- A character of a plain identifier is written as it is and is no bracket. -/
theorem read_isPart {c : Char} (h : Identifier.isPart c = true) :
    c ≠ '\x60' ∧ isSyntactic c = true ∧ ∀ pending, bracketStep pending c = some pending := by
  have hne : ∀ other : Char, Identifier.isPart other = false → c ≠ other := by
    rintro other hother rfl
    simp [hother] at h
  refine ⟨hne _ (by decide), ?_, fun pending => ?_⟩
  · simp only [Identifier.isPart, Bool.or_eq_true, beq_iff_eq] at h
    rcases h with h | rfl
    · simp [isSyntactic, h]
    · decide
  · simp [bracketStep, hne '(' (by decide), hne '[' (by decide), hne '\x7b' (by decide),
      hne ')' (by decide), hne ']' (by decide), hne '\x7d' (by decide)]

/-- A text made of the characters of plain identifiers. -/
theorem contained_of_isPart {text : String} (h : ∀ c ∈ text.toList, Identifier.isPart c = true) :
    Contained text := by
  suffices hread : ∀ chars : List Char, (∀ c ∈ chars, Identifier.isPart c = true) →
      endsQuoted false chars = false ∧ (unquoted false chars).all isSyntactic = true ∧
        brackets [] (unquoted false chars) = some [] from
    have hall := hread text.toList h
    ⟨hall.1, hall.2.1, hall.2.2⟩
  intro chars hchars
  induction chars with
  | nil => decide
  | cons c rest ih =>
    obtain ⟨hquote, hsyntactic, hstep⟩ := read_isPart (hchars c (by simp))
    obtain ⟨hclosed, hall, hnested⟩ := ih fun other hother => hchars other (by simp [hother])
    refine ⟨by simpa [endsQuoted, hquote] using hclosed, ?_, ?_⟩
    · simp [unquoted, hquote, hsyntactic, hall]
    · simpa [unquoted, hquote, brackets, hstep] using hnested

/-- A plain identifier is made of its characters. -/
theorem isPart_of_isPlain {name : String} (h : Identifier.isPlain name = true) :
    ∀ c ∈ name.toList, Identifier.isPart c = true := by
  unfold Identifier.isPlain at h
  cases hchars : name.toList with
  | nil => simp
  | cons c rest =>
    simp only [hchars, Identifier.isPlainChars, Bool.and_eq_true, List.all_eq_true] at h
    intro other hother
    rcases List.mem_cons.mp hother with rfl | hother
    · simp only [Identifier.isStart, Bool.or_eq_true] at h
      simp only [Identifier.isPart, Char.isAlphanum, Bool.or_eq_true]
      tauto
    · exact h.2 other hother

/-- A plain name is contained, since it has neither brackets nor backticks. -/
theorem contained_of_isPlain {name : String} (h : Identifier.isPlain name = true) :
    Contained name := contained_of_isPart (isPart_of_isPlain h)

/-- Doubled backticks do not end a quotation: between the two of them stands nothing. -/
theorem read_doubled (chars : List Char) :
    endsQuoted true (Identifier.doubled chars) = true ∧
      unquoted true (Identifier.doubled chars) = [] := by
  induction chars with
  | nil => exact ⟨rfl, rfl⟩
  | cons c rest ih =>
    rw [Identifier.doubled] at ih ⊢
    rw [List.flatMap_cons, endsQuoted_append, unquoted_append]
    split
    · simpa [endsQuoted, unquoted] using ih
    · next hquote => simpa [endsQuoted, unquoted, hquote] using ih

/-- Every name is contained as a query writes it. -/
theorem contained_escape (name : String) : Contained (Identifier.escape name) := by
  unfold Identifier.escape
  split
  next h => exact contained_of_isPlain h
  next =>
    obtain ⟨hends, hinside⟩ := read_doubled name.toList
    have hopen : "`".toList = ['\x60'] := rfl
    constructor <;>
      simp [hopen, endsQuoted_append, unquoted_append, endsQuoted, unquoted, hends, hinside,
        brackets]

/-! ### Indentation -/

/-- Characters that are others with blanks put in and characters of line ends left out. -/
inductive Respaced : List Char → List Char → Prop
  | nil : Respaced [] []
  | keep (c : Char) {chars result : List Char} :
    Respaced chars result → Respaced (c :: chars) (c :: result)
  | blank {chars result : List Char} : Respaced chars result → Respaced chars (' ' :: result)
  | drop {c : Char} {chars result : List Char} (h : c = '\r' ∨ c = '\n') :
    Respaced chars result → Respaced (c :: chars) result

namespace Respaced

variable {chars result : List Char}

/-- Blanks can be put in front. -/
theorem blanks (h : Respaced chars result) (width : Nat) :
    Respaced chars (List.replicate width ' ' ++ result) := by
  induction width with
  | zero => exact h
  | succ width ih => exact ih.blank

/-- New spacing opens and closes no quotation. -/
theorem endsQuoted_eq (h : Respaced chars result) (quoted : Bool) :
    endsQuoted quoted result = endsQuoted quoted chars := by
  induction h generalizing quoted with
  | nil => rfl
  | keep c _ ih => simp only [endsQuoted, ih]
  | blank _ ih => simpa [endsQuoted] using ih quoted
  | drop hc _ ih => rcases hc with rfl | rfl <;> simpa [endsQuoted] using ih quoted

/-- What stands outside quotations has new spacing too. -/
theorem unquoted (h : Respaced chars result) (quoted : Bool) :
    Respaced (unquoted quoted chars) (unquoted quoted result) := by
  induction h generalizing quoted with
  | nil => exact .nil
  | keep c _ ih =>
    simp only [Text.unquoted]
    split
    · exact ih _
    · split
      · exact ih _
      · exact .keep c (ih _)
  | blank _ ih =>
    cases quoted
    · exact .blank (ih false)
    · exact ih true
  | drop hc _ ih =>
    rcases hc with rfl | rfl
    all_goals
      cases quoted
      · exact .drop (by simp) (ih false)
      · exact ih true

/-- Blanks that are put in are syntactic. -/
theorem syntactic (h : Respaced chars result) (hall : chars.all isSyntactic = true) :
    result.all isSyntactic = true := by
  induction h with
  | nil => exact hall
  | keep c _ ih =>
    simp only [List.all_cons, Bool.and_eq_true] at hall ⊢
    exact ⟨hall.1, ih hall.2⟩
  | blank _ ih =>
    rw [List.all_cons, ih hall]
    decide
  | drop _ _ ih =>
    simp only [List.all_cons, Bool.and_eq_true] at hall
    exact ih hall.2

/-- Neither blanks nor line ends are brackets. -/
theorem brackets_eq (h : Respaced chars result) (pending : List Char) :
    brackets pending result = brackets pending chars := by
  induction h generalizing pending with
  | nil => rfl
  | keep c _ ih =>
    simp only [brackets, List.foldlM_cons] at ih ⊢
    congr 1
    funext after
    exact ih after
  | blank _ ih => exact ih pending
  | drop hc _ ih => rcases hc with rfl | rfl <;> exact ih pending

end Respaced

/-- A line moved to the right. -/
def padded (width : Nat) (line : List Char) : List Char :=
  if line.isEmpty then [] else List.replicate width ' ' ++ line

/-- Moving a line puts blanks in. -/
theorem Respaced.padded {chars line others : List Char} (h : Respaced chars (line ++ others))
    (width : Nat) : Respaced chars (padded width line ++ others) := by
  unfold Text.padded
  split
  next hempty =>
    rw [List.isEmpty_iff.mp hempty] at h
    exact h
  next =>
    rw [List.append_assoc]
    exact h.blanks width

/-- Only an empty text has no lines. -/
theorem lineChars_eq_nil {chars : List Char} (h : lineChars chars = []) : chars = [] := by
  fun_cases lineChars chars <;> simp_all [lineChars]

/-- Lines moved to the right, each after the end of the line before it. -/
def paddedAfter (width : Nat) (lines : List (List Char)) : List Char :=
  lines.flatMap fun line => '\n' :: padded width line

/-- A line end in front of lines that are moved. The last line end has none after it. -/
theorem respaced_lineEnd (width : Nat) {rest : List Char}
    (h : ∀ line lines, lineChars rest = line :: lines →
      Respaced rest (line ++ paddedAfter width lines)) :
    Respaced ('\n' :: rest) (paddedAfter width (lineChars rest)) := by
  cases hlines : lineChars rest with
  | nil =>
    rw [lineChars_eq_nil hlines]
    exact .drop (by simp) .nil
  | cons line lines => exact .keep '\n' ((h line lines hlines).padded width)

/-- Splitting into lines and moving all of them but the first is new spacing. The first line is
apart since its characters are put in front of it one after another. -/
theorem respaced_lineChars (width : Nat) {chars line : List Char} {lines : List (List Char)}
    (h : lineChars chars = line :: lines) : Respaced chars (line ++ paddedAfter width lines) := by
  -- Along the lines: a carriage return before a line feed, a line feed, and any other character at
  -- the end of the text or before more.
  induction chars using lineChars.induct generalizing line lines with
  | case1 => simp [lineChars] at h
  | case2 rest ih =>
    rw [lineChars] at h
    cases h
    exact .drop (by simp) (respaced_lineEnd width fun _ _ => ih)
  | case3 rest ih =>
    rw [lineChars] at h
    cases h
    exact respaced_lineEnd width fun _ _ => ih
  | case4 c rest hreturn hfeed hlines ih =>
    rw [lineChars.eq_4 c rest hreturn hfeed, hlines] at h
    cases h
    rw [lineChars_eq_nil hlines]
    exact .keep c .nil
  | case5 c rest hreturn hfeed next others hlines ih =>
    rw [lineChars.eq_4 c rest hreturn hfeed, hlines] at h
    cases h
    exact .keep c (ih hlines)

/-- Joining lines, as characters: a line feed stands before every line but the first. -/
theorem toList_join_newline (piece : String) (rest : List String) :
    (join "\n" (piece :: rest)).toList =
      piece.toList ++ rest.flatMap fun other => '\n' :: other.toList := by
  induction rest generalizing piece with
  | nil => simp [join]
  | cons next rest ih =>
    rw [join, String.toList_append, String.toList_append, ih]
    simp

/-- An indented line is moved to the right, as characters. -/
theorem toList_indentLine (width : Nat) (line : List Char) :
    (indentLine width (String.ofList line)).toList = padded width line := by
  unfold indentLine padded
  cases line <;> simp

/-- Indentation is new spacing. -/
theorem respaced_indent (text : String) (width : Nat) :
    Respaced text.toList (indent text width).toList := by
  unfold indent lines
  cases hlines : lineChars text.toList with
  | nil =>
    rw [lineChars_eq_nil hlines]
    exact .nil
  | cons line rest =>
    have h := (respaced_lineChars width hlines).padded width
    simpa only [List.map_cons, toList_join_newline, toList_indentLine, List.map_map,
      List.flatMap_map, Function.comp_apply, paddedAfter] using h

/-- A contained text is contained after indentation. -/
theorem Contained.indent {text : String} (h : Contained text) (width : Nat) :
    Contained (indent text width) where
  closed := by rw [(respaced_indent text width).endsQuoted_eq, h.closed]
  syntactic := ((respaced_indent text width).unquoted false).syntactic h.syntactic
  nested := by rw [((respaced_indent text width).unquoted false).brackets_eq, h.nested]

end GraphRead.Text
