import GraphRead.Proofs.Text.Containment
import Mathlib.Data.List.Forall2

/-!
# What indentation changes

Indentation puts blanks at the start of lines, wherever the lines begin, so also
inside quotations. This file compares texts without the blanks at the start of
their lines, and shows that indentation by any width gives the same then. It also
reads the quotations of a text one by one, and says exactly what becomes of each
of them: one without a line feed stays as it is, and in any other the lines after
the first are moved.
-/

namespace GraphRead.Text

/-! ### Lines without the blanks before them -/

/-- Whether only blanks follow the last line feed. Before any line feed, `start` decides. -/
def atStart (start : Bool) : List Char → Bool
  | [] => start
  | c :: rest => atStart (c = '\n' || (start && c = ' ')) rest

/-- The characters without the blanks at the start of lines. -/
def flushed (start : Bool) : List Char → List Char
  | [] => []
  | c :: rest =>
    if start && c = ' ' then flushed true rest else c :: flushed (c = '\n') rest

/-- A blank at the start of a line is dropped. -/
@[simp]
theorem flushed_blank (rest : List Char) : flushed true (' ' :: rest) = flushed true rest := rfl

/-- After a blank at the start of a line, the line still starts. -/
@[simp]
theorem atStart_blank (rest : List Char) : atStart true (' ' :: rest) = atStart true rest := rfl

/-- Any other character is kept. -/
theorem flushed_cons {start : Bool} {c : Char} (h : ¬ (start = true ∧ c = ' '))
    (rest : List Char) : flushed start (c :: rest) = c :: flushed (c = '\n') rest := by
  rw [flushed, if_neg (by simpa using h)]

/-- After any other character, a line starts only if it was a line feed. -/
theorem atStart_cons {start : Bool} {c : Char} (h : ¬ (start = true ∧ c = ' '))
    (rest : List Char) : atStart start (c :: rest) = atStart (c = '\n') rest := by
  have hblank : (start && decide (c = ' ')) = false := by simpa using h
  rw [atStart, hblank, Bool.or_false]

/-- After a line feed, a line starts. -/
@[simp]
theorem flushed_feed (start : Bool) (rest : List Char) :
    flushed start ('\n' :: rest) = '\n' :: flushed true rest := flushed_cons (by simp) rest

/-- Blanks are dropped in two texts as in each, from how the first ends. -/
theorem flushed_append (start : Bool) (first second : List Char) :
    flushed start (first ++ second) =
      flushed start first ++ flushed (atStart start first) second := by
  induction first generalizing start with
  | nil => rfl
  | cons c rest ih =>
    by_cases hblank : start = true ∧ c = ' '
    · obtain ⟨rfl, rfl⟩ := hblank
      exact ih true
    · rw [List.cons_append, flushed_cons hblank, flushed_cons hblank, atStart_cons hblank, ih,
        List.cons_append]

/-- Blanks at the start of a line are dropped, however many there are. -/
theorem flushed_blanks (width : Nat) (rest : List Char) :
    flushed true (List.replicate width ' ' ++ rest) = flushed true rest := by
  induction width with
  | zero => rfl
  | succ width ih => exact ih

/-- Moving a line does not matter. -/
theorem flushed_padded (width : Nat) (line : List Char) :
    flushed true (padded width line) = flushed true line := by
  unfold padded
  split
  next hempty => rw [List.isEmpty_iff.mp hempty]
  next => exact flushed_blanks width line

/-- What remains tells whether only blanks follow the last line feed. -/
theorem atStart_eq (start : Bool) (chars : List Char) :
    atStart start chars = ((flushed start chars).getLast?.map (· == '\n')).getD start := by
  induction chars generalizing start with
  | nil => rfl
  | cons c rest ih =>
    by_cases hblank : start = true ∧ c = ' '
    · obtain ⟨rfl, rfl⟩ := hblank
      exact ih true
    · rw [atStart_cons hblank, flushed_cons hblank, ih]
      cases flushed (c = '\n') rest <;> simp [List.getLast?_cons, Bool.beq_eq_decide_eq]

/-! ### Indentation -/

/-- Lines one after another. -/
def joined : List (List Char) → List Char
  | [] => []
  | line :: lines => line ++ lines.flatMap ('\n' :: ·)

/-- The lines without the blanks before them, where the first one may have been begun before. -/
def flushedLines (start : Bool) (chars : List Char) : List (List Char) :=
  match lineChars chars with
  | [] => []
  | line :: lines => flushed start line :: lines.map (flushed true)

/-- Moving lines does not matter, wherever the text before them ends. -/
theorem flushed_paddedAfter (start : Bool) (width : Nat) (lines : List (List Char)) :
    flushed start (paddedAfter width lines) =
      (lines.map (flushed true)).flatMap ('\n' :: ·) := by
  induction lines generalizing start with
  | nil => rfl
  | cons line rest ih =>
    rw [paddedAfter, List.flatMap_cons, List.cons_append, flushed_feed, flushed_append,
      flushed_padded, List.map_cons, List.flatMap_cons, ← paddedAfter, ih, List.cons_append]

/-- An indented text is made of the lines of the text. -/
theorem toList_indent {text : String} {line : List Char} {rest : List (List Char)}
    (h : lineChars text.toList = line :: rest) (width : Nat) :
    (indent text width).toList = padded width line ++ paddedAfter width rest := by
  simp only [indent, lines, h, List.map_cons, toList_join_newline, toList_indentLine, List.map_map,
    List.flatMap_map, Function.comp_apply, paddedAfter]

/-- A text without lines is indented to nothing. -/
theorem indent_of_lines_nil {text : String} (h : lineChars text.toList = []) (width : Nat) :
    indent text width = "" := by
  rw [indent, lines, h]
  rfl

/-- Without the blanks before its lines, an indented text consists of the lines of the text. -/
theorem flushed_indent (text : String) (width : Nat) :
    flushed true (indent text width).toList = joined (flushedLines true text.toList) := by
  unfold flushedLines
  cases hlines : lineChars text.toList with
  | nil =>
    rw [indent_of_lines_nil hlines]
    rfl
  | cons line rest =>
    rw [toList_indent hlines, flushed_append, flushed_padded, flushed_paddedAfter]
    rfl

/-- Whether the last line is not empty, but has only blanks. -/
def endsBlank (start : Bool) (chars : List Char) : Bool :=
  atStart start chars && chars.getLast? = some ' '

/-- After any other character than a blank at the start, it is the rest that may end in blanks. -/
theorem endsBlank_cons {start : Bool} {c : Char} (h : ¬ (start = true ∧ c = ' '))
    (rest : List Char) : endsBlank start (c :: rest) = endsBlank (c = '\n') rest := by
  rw [endsBlank, atStart_cons h, endsBlank]
  cases rest with
  | nil => by_cases hfeed : c = '\n' <;> simp [atStart, hfeed]
  | cons d rest => rw [List.getLast?_cons_cons]

/-- The first line may have been begun before, and the others start anew. -/
theorem flushedLines_of_lines {start : Bool} {chars line : List Char} {lines : List (List Char)}
    (h : lineChars chars = line :: lines) :
    flushedLines start chars = flushed start line :: lines.map (flushed true) := by
  rw [flushedLines, h]

/-- If the first line starts anew, all lines do. -/
theorem flushedLines_true (chars : List Char) :
    flushedLines true chars = (lineChars chars).map (flushed true) := by
  unfold flushedLines
  cases lineChars chars <;> rfl

/-- Where no line starts, every character is kept. -/
theorem flushed_false_cons (c : Char) (rest : List Char) :
    flushed false (c :: rest) = c :: flushed (c = '\n') rest := flushed_cons (by simp) rest

/-- A character that ends no line belongs to the first line, also without blanks. -/
theorem lineChars_cons_flushed {c : Char} {rest line : List Char} {lines : List (List Char)}
    (hreturn : ∀ others, c = '\r' → rest = '\n' :: others → False) (hfeed : c ≠ '\n')
    (h : lineChars (flushed false rest) = line :: lines) :
    lineChars (c :: flushed false rest) = (c :: line) :: lines := by
  rw [lineChars.eq_4 c _ ?_ hfeed, h]
  intro others hc hrest
  cases rest with
  | nil => simp [flushed] at hrest
  | cons d rest =>
    rw [flushed_false_cons] at hrest
    exact hreturn rest hc (by rw [(List.cons.inj hrest).1])

/-- The lines without the blanks before them can be found in the text without those blanks. Only a
line of blanks at the end is lost with them. -/
theorem flushedLines_eq (start : Bool) (chars : List Char) :
    flushedLines start chars =
      lineChars (flushed start chars) ++ if endsBlank start chars then [[]] else [] := by
  induction chars using lineChars.induct generalizing start with
  | case1 => simp [flushedLines, lineChars, flushed, endsBlank]
  | case2 rest ih =>
    have hreturn : endsBlank start ('\r' :: '\n' :: rest) = endsBlank true rest := by
      rw [endsBlank_cons (by simp), endsBlank_cons (by simp)]
      rfl
    have hflushed : flushed start ('\r' :: '\n' :: rest) = '\r' :: '\n' :: flushed true rest := by
      rw [flushed_cons (by simp), flushed_feed]
    rw [hreturn, hflushed, flushedLines, lineChars, lineChars, List.cons_append, ← ih,
      flushedLines_true]
    rfl
  | case3 rest ih =>
    have hfeed : endsBlank start ('\n' :: rest) = endsBlank true rest :=
      endsBlank_cons (by simp) rest
    rw [hfeed, flushed_feed, flushedLines, lineChars, lineChars, List.cons_append, ← ih,
      flushedLines_true]
    rfl
  | case4 c rest hreturn hfeed hlines ih =>
    obtain rfl := lineChars_eq_nil hlines
    have hsingle : lineChars [c] = [[c]] := by rw [lineChars.eq_4 c [] hreturn hfeed, hlines]
    by_cases hblank : start = true ∧ c = ' '
    · obtain ⟨rfl, rfl⟩ := hblank
      rfl
    · have hnone : endsBlank start [c] = false := by
        rw [endsBlank_cons hblank]
        simp [endsBlank]
      have hkept : flushed start [c] = [c] := flushed_cons hblank []
      simp [flushedLines, hsingle, hkept, hnone]
  | case5 c rest hreturn hfeed next others hlines ih =>
    have hchars : lineChars (c :: rest) = (c :: next) :: others := by
      rw [lineChars.eq_4 c rest hreturn hfeed, hlines]
    have hne : rest ≠ [] := by
      rintro rfl
      simp [lineChars] at hlines
    by_cases hblank : start = true ∧ c = ' '
    · -- The blank is left out on both sides.
      obtain ⟨rfl, rfl⟩ := hblank
      have hends : endsBlank true (' ' :: rest) = endsBlank true rest := by
        rw [endsBlank, endsBlank, atStart_blank, List.getLast?_cons_of_ne_nil hne]
      rw [hends, flushed_blank, ← ih, flushedLines_of_lines hlines, flushedLines_of_lines hchars,
        flushed_blank]
    · have hends : endsBlank start (c :: rest) = endsBlank false rest := by
        rw [endsBlank_cons hblank, decide_eq_false hfeed]
      have hkept (rest : List Char) : flushed start (c :: rest) = c :: flushed false rest := by
        rw [flushed_cons hblank, decide_eq_false hfeed]
      obtain ⟨line, lines, hflushed⟩ :
          ∃ line lines, lineChars (flushed false rest) = line :: lines := by
        obtain ⟨d, more, rfl⟩ := List.exists_cons_of_ne_nil hne
        refine List.exists_cons_of_ne_nil fun hnone => ?_
        simpa [flushed_false_cons] using lineChars_eq_nil hnone
      have hfirst := (flushedLines_of_lines hlines).symm.trans (ih false)
      rw [hflushed, List.cons_append] at hfirst
      obtain ⟨hline, hothers⟩ := List.cons.inj hfirst
      rw [hends, hkept, lineChars_cons_flushed hreturn hfeed hflushed, flushedLines_of_lines hchars,
        hkept, hline, hothers, List.cons_append]

/-- Texts that are the same without the blanks before their lines stay so if they are indented, by
whatever widths. -/
theorem flushed_indent_congr {first second : String}
    (h : flushed true first.toList = flushed true second.toList)
    (hlast : first.toList.getLast? = second.toList.getLast?) (width width' : Nat) :
    flushed true (indent first width).toList = flushed true (indent second width').toList := by
  have hends : endsBlank true first.toList = endsBlank true second.toList := by
    rw [endsBlank, endsBlank, atStart_eq, atStart_eq, h, hlast]
  rw [flushed_indent, flushed_indent, flushedLines_eq, flushedLines_eq, h, hends]

/-! ### Quotations -/

/-- A character in front of the first of some quotations. -/
def extended (c : Char) : List (List Char) → List (List Char)
  | [] => [[c]]
  | first :: others => (c :: first) :: others

/-- The quotations of the characters, of which the first one may have been opened before. A backtick
inside a name is written twice, so it closes a quotation and opens the next one. -/
def quotations (quoted : Bool) : List Char → List (List Char)
  | [] => if quoted then [[]] else []
  | c :: rest =>
    if c = '\x60' then if quoted then [] :: quotations false rest else quotations true rest
    else if quoted then extended c (quotations true rest)
    else quotations false rest

/-- The characters outside quotations and the backticks around these. -/
def outside (quoted : Bool) : List Char → List Char
  | [] => []
  | c :: rest =>
    if c = '\x60' then c :: outside (!quoted) rest
    else if quoted then outside true rest
    else c :: outside false rest

section Steps

variable (rest : List Char)

/-- A backtick in a quotation closes it. -/
@[simp]
theorem quotations_close : quotations true ('\x60' :: rest) = [] :: quotations false rest := rfl

variable {c : Char} (h : c ≠ '\x60')

include h

/-- Any other character in a quotation belongs to it. -/
theorem quotations_inside : quotations true (c :: rest) = extended c (quotations true rest) := by
  rw [quotations, if_neg h, if_pos rfl]

/-- Any other character outside belongs to no quotation. -/
theorem quotations_outside : quotations false (c :: rest) = quotations false rest := by
  rw [quotations, if_neg h]
  rfl

/-- No other character opens or closes a quotation. -/
theorem endsQuoted_cons (quoted : Bool) :
    endsQuoted quoted (c :: rest) = endsQuoted quoted rest := by
  rw [endsQuoted, if_neg h]

end Steps

/-- An open quotation is the first one. -/
theorem quotations_true (chars : List Char) :
    ∃ first others, quotations true chars = first :: others := by
  cases chars with
  | nil => exact ⟨[], [], rfl⟩
  | cons c rest =>
    by_cases hquote : c = '\x60'
    · subst hquote
      exact ⟨[], _, rfl⟩
    · rw [quotations_inside rest hquote]
      cases quotations true rest <;> exact ⟨_, _, rfl⟩

/-- A character goes to the first quotation, if there is one. -/
theorem extended_append {c : Char} {first : List (List Char)} (h : first ≠ [])
    (second : List (List Char)) : extended c (first ++ second) = extended c first ++ second := by
  cases first with
  | nil => contradiction
  | cons => rfl

/-- The quotations of two texts are those of each, if the first closes its own. -/
theorem quotations_append {quoted : Bool} {first : List Char}
    (h : endsQuoted quoted first = false) (second : List Char) :
    quotations quoted (first ++ second) = quotations quoted first ++ quotations false second := by
  induction first generalizing quoted with
  | nil =>
    obtain rfl : quoted = false := h
    rfl
  | cons c rest ih =>
    rw [List.cons_append]
    by_cases hquote : c = '\x60'
    · subst hquote
      cases quoted with
      | true => exact congrArg ([] :: ·) (ih h)
      | false => exact ih h
    · rw [endsQuoted_cons rest hquote] at h
      cases quoted with
      | true =>
        obtain ⟨content, others, hrest⟩ := quotations_true rest
        rw [quotations_inside _ hquote, quotations_inside _ hquote, ih h,
          extended_append (by simp [hrest])]
      | false => rw [quotations_outside _ hquote, quotations_outside _ hquote, ih h]

/-- The first quotation changed in one way, and the others in another. -/
def mapHead (f g : List Char → List Char) : List (List Char) → List (List Char)
  | [] => []
  | first :: others => f first :: others.map g

/-- If all are changed in one way, the first is nothing special. -/
theorem mapHead_self (f : List Char → List Char) (list : List (List Char)) :
    mapHead f f list = list.map f := by
  cases list <;> rfl

/-- Leaving out the blanks before lines leaves out the same in quotations, and nothing else. -/
theorem quotations_flushed (start : Bool) (chars : List Char) :
    quotations false (flushed start chars) = (quotations false chars).map (flushed false) ∧
      quotations true (flushed start chars) =
        mapHead (flushed start) (flushed false) (quotations true chars) := by
  induction chars generalizing start with
  | nil => exact ⟨rfl, rfl⟩
  | cons c rest ih =>
    obtain ⟨content, others, hrest⟩ := quotations_true rest
    by_cases hblank : start = true ∧ c = ' '
    · obtain ⟨rfl, rfl⟩ := hblank
      obtain ⟨houtside, hinside⟩ := ih true
      rw [quotations_inside rest (by decide), quotations_outside rest (by decide), flushed_blank]
      refine ⟨houtside, ?_⟩
      rw [hinside, hrest]
      rfl
    · rw [flushed_cons hblank]
      by_cases hquote : c = '\x60'
      · subst hquote
        obtain ⟨houtside, hinside⟩ := ih false
        refine ⟨hinside.trans (mapHead_self _ _), ?_⟩
        exact congrArg ([] :: ·) houtside
      · obtain ⟨houtside, hinside⟩ := ih (c = '\n')
        rw [quotations_outside _ hquote, quotations_outside _ hquote, quotations_inside _ hquote,
          quotations_inside _ hquote]
        refine ⟨houtside, ?_⟩
        rw [hinside, hrest, mapHead, extended, extended, mapHead, flushed_cons hblank]

/-- Leaving out the blanks before lines leaves out the same outside quotations. Inside one it does
not matter where a line begins, since the next character outside is a backtick. -/
theorem outside_flushed (start : Bool) (chars : List Char) :
    outside false (flushed start chars) = flushed start (outside false chars) ∧
      ∀ start', outside true (flushed start chars) = flushed start' (outside true chars) := by
  induction chars generalizing start with
  | nil => exact ⟨rfl, fun _ => rfl⟩
  | cons c rest ih =>
    by_cases hblank : start = true ∧ c = ' '
    · obtain ⟨rfl, rfl⟩ := hblank
      exact ih true
    · rw [flushed_cons hblank]
      by_cases hquote : c = '\x60'
      · subst hquote
        obtain ⟨houtside, hinside⟩ := ih false
        simp only [outside, if_true, Bool.not_false, Bool.not_true]
        have hkept (start : Bool) (rest : List Char) :
            flushed start ('\x60' :: rest) = '\x60' :: flushed false rest :=
          flushed_cons (by simp) rest
        refine ⟨?_, fun start' => ?_⟩
        · rw [hkept]
          exact congrArg ('\x60' :: ·) (hinside false)
        · rw [hkept]
          exact congrArg ('\x60' :: ·) houtside
      · obtain ⟨houtside, hinside⟩ := ih (c = '\n')
        simp only [outside, if_neg hquote, if_true, Bool.false_eq_true, if_false]
        exact ⟨by rw [houtside, flushed_cons hblank], hinside⟩

/-- Without a line feed there are no blanks to leave out. -/
theorem flushed_eq_self {chars : List Char} (h : '\n' ∉ chars) : flushed false chars = chars := by
  induction chars with
  | nil => rfl
  | cons c rest ih =>
    obtain ⟨hc, hrest⟩ := not_or.mp (mt List.mem_cons.mpr h)
    rw [flushed_false_cons, decide_eq_false (Ne.symm hc), ih hrest]

/-- Line feeds are kept. -/
theorem feed_mem_flushed (start : Bool) (chars : List Char) :
    '\n' ∈ flushed start chars ↔ '\n' ∈ chars := by
  induction chars generalizing start with
  | nil => rfl
  | cons c rest ih =>
    by_cases hblank : start = true ∧ c = ' '
    · obtain ⟨rfl, rfl⟩ := hblank
      rw [flushed_blank, ih, List.mem_cons]
      simp
    · rw [flushed_cons hblank, List.mem_cons, List.mem_cons, ih]

/-- Two texts have the same quotations and the same text outside of them, apart from blanks at the
start of lines. -/
structure Realigned (first second : String) : Prop where
  lines : flushed true first.toList = flushed true second.toList
  outside : flushed true (outside false first.toList) = flushed true (outside false second.toList)
  /-- In a quotation without a line feed no blank is at the start of a line. -/
  quotations : List.Forall₂
    (fun content content' => flushed false content = flushed false content' ∧
      ('\n' ∉ content → content = content'))
    (quotations false first.toList) (quotations false second.toList)

/-- Texts that are the same without the blanks at the start of lines have the same quotations in the
same surroundings. -/
theorem realigned_of_flushed {first second : String}
    (h : flushed true first.toList = flushed true second.toList) : Realigned first second where
  lines := h
  outside := by rw [← (outside_flushed true _).1, ← (outside_flushed true _).1, h]
  quotations := by
    have hquotations : (quotations false first.toList).map (flushed false) =
        (quotations false second.toList).map (flushed false) := by
      rw [← (quotations_flushed true _).1, ← (quotations_flushed true _).1, h]
    rw [← List.forall₂_eq_eq_eq, List.forall₂_map_left_iff, List.forall₂_map_right_iff]
      at hquotations
    refine hquotations.imp fun content content' heq => ⟨heq, fun hfeed => ?_⟩
    have hfeed' : '\n' ∉ content' := by
      rwa [← feed_mem_flushed false, ← heq, feed_mem_flushed]
    rwa [flushed_eq_self hfeed, flushed_eq_self hfeed'] at heq

/-! ### What becomes of a quotation -/

/-- Whether the characters begin with a line end. -/
def startsLineEnd : List Char → Bool
  | '\n' :: _ => true
  | '\r' :: '\n' :: _ => true
  | _ => false

/-- The blanks before a line of a quotation. The last line has some even if it has no character,
since the backtick comes after it. -/
def gap (width : Nat) (rest : List Char) : List Char :=
  if startsLineEnd rest then [] else List.replicate width ' '

/-- A quotation with its lines after the first moved right. -/
def moved (width : Nat) : List Char → List Char
  | [] => []
  | '\r' :: '\n' :: rest => '\n' :: (gap width rest ++ moved width rest)
  | '\n' :: rest => '\n' :: (gap width rest ++ moved width rest)
  | c :: rest => c :: moved width rest

/-- A quotation without a line feed stays as it is. -/
theorem moved_eq_self {chars : List Char} (h : '\n' ∉ chars) (width : Nat) :
    moved width chars = chars := by
  fun_induction moved width chars with
  | case1 => rfl
  | case2 | case3 => simp at h
  | case4 c rest _ _ ih => rw [ih (fun hfeed => h (List.mem_cons_of_mem c hfeed))]

/-- A character that ends no line is kept as it is. -/
theorem moved_cons {c : Char} {rest : List Char} (hfeed : c ≠ '\n')
    (hreturn : ∀ others, c = '\r' → rest = '\n' :: others → False) (width : Nat) :
    moved width (c :: rest) = c :: moved width rest := moved.eq_4 width c rest hreturn hfeed

/-- A character that ends no line starts no line end. -/
theorem startsLineEnd_cons {c : Char} {rest : List Char} (hfeed : c ≠ '\n')
    (hreturn : ∀ others, c = '\r' → rest = '\n' :: others → False) :
    startsLineEnd (c :: rest) = false := by
  unfold startsLineEnd
  split
  next others heq => exact absurd (List.cons.inj heq).1 hfeed
  next others heq => exact (hreturn others (List.cons.inj heq).1 (List.cons.inj heq).2).elim
  next => rfl

/-- A line is empty if a line end comes first. -/
theorem isEmpty_of_lines {chars line : List Char} {lines : List (List Char)}
    (h : lineChars chars = line :: lines) : line.isEmpty = startsLineEnd chars := by
  cases chars using lineChars.induct with
  | case1 => simp [lineChars] at h
  | case2 rest | case3 rest =>
    rw [lineChars] at h
    rw [← (List.cons.inj h).1]
    rfl
  | case4 c rest hreturn hfeed hlines | case5 c rest hreturn hfeed next others hlines =>
    rw [lineChars.eq_4 c rest hreturn hfeed, hlines] at h
    rw [← (List.cons.inj h).1, startsLineEnd_cons hfeed hreturn]
    rfl

/-- An open quotation goes on with a character that is no backtick. -/
theorem quotations_true_cons {c : Char} (hquote : c ≠ '\x60') (rest : List Char) :
    ∃ content others, quotations true rest = content :: others ∧
      quotations true (c :: rest) = (c :: content) :: others := by
  obtain ⟨content, others, hrest⟩ := quotations_true rest
  exact ⟨content, others, hrest, by rw [quotations_inside rest hquote, hrest, extended]⟩

/-- The first character of an open quotation is the first of the text. -/
theorem feed_of_quotations {chars more : List Char} {others : List (List Char)}
    (h : quotations true chars = ('\n' :: more) :: others) : ∃ rest, chars = '\n' :: rest := by
  cases chars with
  | nil => simp [quotations] at h
  | cons c rest =>
    by_cases hquote : c = '\x60'
    · subst hquote
      simp at h
    · obtain ⟨content, others', -, hcons⟩ := quotations_true_cons hquote rest
      rw [hcons] at h
      obtain ⟨rfl, -⟩ := List.cons.inj (List.cons.inj h).1
      exact ⟨rest, rfl⟩

/-- The first quotation begins with a line end if the characters do. -/
theorem startsLineEnd_of_quotations {chars content : List Char} {others : List (List Char)}
    (h : quotations true chars = content :: others) :
    startsLineEnd content = startsLineEnd chars := by
  cases chars with
  | nil =>
    obtain ⟨rfl, -⟩ := List.cons.inj h
    rfl
  | cons c rest =>
    by_cases hquote : c = '\x60'
    · subst hquote
      obtain ⟨rfl, -⟩ := List.cons.inj h
      rfl
    · obtain ⟨content', others', hrest, hcons⟩ := quotations_true_cons hquote rest
      obtain ⟨rfl, -⟩ := List.cons.inj (hcons.symm.trans h)
      by_cases hfeed : c = '\n'
      · subst hfeed
        rfl
      -- A carriage return counts only before a line feed, which then is in the quotation too.
      by_cases hreturn : c = '\r' ∧ ∃ more, rest = '\n' :: more
      · obtain ⟨rfl, more, rfl⟩ := hreturn
        obtain ⟨content'', others'', -, hfeed'⟩ :=
          quotations_true_cons (by decide : '\n' ≠ '\x60') more
        obtain ⟨rfl, -⟩ := List.cons.inj (hfeed'.symm.trans hrest)
        rfl
      · rw [startsLineEnd_cons hfeed fun more hc heq => hreturn ⟨hc, more, heq⟩]
        refine startsLineEnd_cons hfeed fun more hc heq => hreturn ⟨hc, ?_⟩
        exact feed_of_quotations (heq ▸ hrest)

/-- Moving a line outside of quotations changes none. -/
theorem quotations_padded_outside (width : Nat) (line rest : List Char) :
    quotations false (padded width line ++ rest) = quotations false (line ++ rest) := by
  unfold padded
  split
  next hempty => rw [List.isEmpty_iff.mp hempty]
  next =>
    induction width with
    | zero => rfl
    | succ width ih => exact ih

/-- Moving a line inside a quotation puts blanks before it, unless it is empty. -/
theorem quotations_padded_inside (width : Nat) {line rest content : List Char}
    {others : List (List Char)} (h : quotations true (line ++ rest) = content :: others) :
    quotations true (padded width line ++ rest) =
      ((if line.isEmpty then [] else List.replicate width ' ') ++ content) :: others := by
  unfold padded
  split
  next hempty =>
    rw [List.isEmpty_iff.mp hempty] at h
    exact h
  next =>
    induction width with
    | zero => exact h
    | succ width ih =>
      rw [List.replicate_succ, List.cons_append, List.cons_append,
        quotations_inside _ (by decide), ih]
      rfl

/-- A line feed in front of a text whose quotations have been moved. -/
theorem quotations_lineFeed {width : Nat} {rest : List Char}
    (h : ∀ line lines, lineChars rest = line :: lines → ∀ quoted,
      endsQuoted quoted rest = false →
        quotations quoted (line ++ paddedAfter width lines) =
          (quotations quoted rest).map (moved width))
    (quoted : Bool) (hclosed : endsQuoted quoted rest = false) :
    quotations quoted (paddedAfter width (lineChars rest)) =
      (quotations quoted ('\n' :: rest)).map (moved width) := by
  cases hlines : lineChars rest with
  | nil =>
    obtain rfl := lineChars_eq_nil hlines
    obtain rfl : quoted = false := hclosed
    rfl
  | cons line lines =>
    have hmoved := h line lines hlines quoted hclosed
    have hstep : paddedAfter width (line :: lines) =
        '\n' :: (padded width line ++ paddedAfter width lines) := rfl
    cases quoted with
    | false =>
      rw [hstep, quotations_outside _ (by decide), quotations_outside _ (by decide),
        quotations_padded_outside, hmoved]
    | true =>
      -- The line goes on with the quotation. Whether it gets blanks is seen by what stands there.
      obtain ⟨content, others, hrest, hcons⟩ :=
        quotations_true_cons (by decide : '\n' ≠ '\x60') rest
      rw [hrest, List.map_cons] at hmoved
      rw [hstep, quotations_inside _ (by decide), quotations_padded_inside width hmoved, hcons,
        isEmpty_of_lines hlines, ← startsLineEnd_of_quotations hrest]
      rfl

/-- A return before a line feed is lost. -/
theorem moved_quotations_return (width : Nat) (quoted : Bool) (rest : List Char) :
    (quotations quoted ('\r' :: '\n' :: rest)).map (moved width) =
      (quotations quoted ('\n' :: rest)).map (moved width) := by
  cases quoted with
  | false => rw [quotations_outside _ (by decide)]
  | true =>
    obtain ⟨content, others, -, hfeed⟩ := quotations_true_cons (by decide : '\n' ≠ '\x60') rest
    rw [quotations_inside _ (by decide), hfeed]
    rfl

/-- A character that ends no line in front of a text whose quotations have been moved. -/
theorem quotations_keep {width : Nat} {c : Char} {rest result : List Char} (hfeed : c ≠ '\n')
    (hreturn : ∀ others, c = '\r' → rest = '\n' :: others → False)
    (h : ∀ quoted, endsQuoted quoted rest = false →
      quotations quoted result = (quotations quoted rest).map (moved width))
    (quoted : Bool) (hclosed : endsQuoted quoted (c :: rest) = false) :
    quotations quoted (c :: result) = (quotations quoted (c :: rest)).map (moved width) := by
  by_cases hquote : c = '\x60'
  · subst hquote
    cases quoted with
    | false => exact h true hclosed
    | true => exact congrArg ([] :: ·) (h false hclosed)
  · rw [endsQuoted_cons _ hquote] at hclosed
    cases quoted with
    | false => rw [quotations_outside _ hquote, quotations_outside _ hquote, h false hclosed]
    | true =>
      obtain ⟨content, others, hrest, hcons⟩ := quotations_true_cons hquote rest
      have hkept : moved width (c :: content) = c :: moved width content := by
        refine moved_cons hfeed (fun more hc heq => ?_) width
        obtain ⟨others', hfirst⟩ := feed_of_quotations (heq ▸ hrest)
        exact hreturn others' hc hfirst
      rw [quotations_inside _ hquote, h true hclosed, hcons, hrest, List.map_cons, List.map_cons,
        hkept, extended]

/-- Moving all lines but the first moves those of quotations. -/
theorem quotations_of_lines (width : Nat) {chars line : List Char} {lines : List (List Char)}
    (h : lineChars chars = line :: lines) (quoted : Bool)
    (hclosed : endsQuoted quoted chars = false) :
    quotations quoted (line ++ paddedAfter width lines) =
      (quotations quoted chars).map (moved width) := by
  induction chars using lineChars.induct generalizing line lines quoted with
  | case1 => simp [lineChars] at h
  | case2 rest ih =>
    rw [lineChars] at h
    obtain ⟨rfl, rfl⟩ := List.cons.inj h
    rw [endsQuoted_cons _ (by decide), endsQuoted_cons _ (by decide)] at hclosed
    rw [moved_quotations_return]
    exact quotations_lineFeed (fun _ _ h => ih h) quoted hclosed
  | case3 rest ih =>
    rw [lineChars] at h
    obtain ⟨rfl, rfl⟩ := List.cons.inj h
    rw [endsQuoted_cons _ (by decide)] at hclosed
    exact quotations_lineFeed (fun _ _ h => ih h) quoted hclosed
  | case4 c rest hreturn hfeed hlines ih =>
    rw [lineChars.eq_4 c rest hreturn hfeed, hlines] at h
    obtain ⟨rfl, rfl⟩ := List.cons.inj h
    obtain rfl := lineChars_eq_nil hlines
    refine quotations_keep hfeed hreturn (fun quoted hclosed => ?_) quoted hclosed
    obtain rfl : quoted = false := hclosed
    rfl
  | case5 c rest hreturn hfeed next others hlines ih =>
    rw [lineChars.eq_4 c rest hreturn hfeed, hlines] at h
    obtain ⟨rfl, rfl⟩ := List.cons.inj h
    exact quotations_keep hfeed hreturn (ih hlines) quoted hclosed

/-- Indentation moves the lines of every quotation, and it adds no quotation. -/
theorem quotations_indent {text : String} (h : endsQuoted false text.toList = false)
    (width : Nat) :
    quotations false (indent text width).toList =
      (quotations false text.toList).map (moved width) := by
  cases hlines : lineChars text.toList with
  | nil =>
    rw [indent_of_lines_nil hlines, lineChars_eq_nil hlines]
    rfl
  | cons line rest =>
    rw [toList_indent hlines, quotations_padded_outside, quotations_of_lines width hlines false h]

end GraphRead.Text
