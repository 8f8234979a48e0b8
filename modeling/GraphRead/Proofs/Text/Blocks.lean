import GraphRead.Proofs.Text.Indentation

/-!
# Blocks inside blocks

A block inside another one is indented once for each of them. This file proves
that the widths add up and that nothing is lost on the way: a text without
carriage returns that does not end in a line feed is made of its lines, and
indentation moves these lines one by one, so that taking the blanks away again
gives the text back. A carriage return before a line feed and a line feed at the
end of a text do not survive the splitting into lines, which is why such texts are
left out.
-/

namespace GraphRead.Text

/-- Characters that their lines determine: no carriage return is lost at the end of a line, and no
line feed at the end of the text. -/
structure Regular (chars : List Char) : Prop where
  noReturn : '\r' ∉ chars
  openEnd : chars.getLast? ≠ some '\n'

/-- Lines that can be told apart after they are joined. An empty line at the end could not be
seen. -/
structure Separable (lines : List (List Char)) : Prop where
  noLineEnd : ∀ line ∈ lines, '\n' ∉ line ∧ '\r' ∉ line
  lastLine : lines.getLast? ≠ some []

namespace Regular

variable {c : Char} {rest : List Char}

/-- Regular characters do not begin with a carriage return. -/
theorem ne_return (h : Regular (c :: rest)) : c ≠ '\r' :=
  (List.ne_of_not_mem_cons h.noReturn).symm

/-- What follows the first of regular characters is regular, if there is something. -/
theorem tail (h : Regular (c :: rest)) (hrest : rest ≠ []) : Regular rest where
  noReturn := List.not_mem_of_not_mem_cons h.noReturn
  openEnd := by
    rw [← List.getLast?_cons_of_ne_nil hrest]
    exact h.openEnd

/-- A text does not end right after a line feed. -/
theorem rest_ne_nil (h : Regular ('\n' :: rest)) : rest ≠ [] := by
  rintro rfl
  exact h.openEnd rfl

end Regular

namespace Separable

variable {c : Char} {line : List Char} {lines : List (List Char)}

/-- No lines can be told apart. -/
theorem nil : Separable [] := ⟨by simp, by simp⟩

/-- A line of one character can be told apart, if it is no line end. -/
theorem singleton (hfeed : c ≠ '\n') (hreturn : c ≠ '\r') : Separable [[c]] :=
  ⟨by simpa using ⟨hfeed.symm, hreturn.symm⟩, by simp⟩

/-- An empty line is put before others. -/
theorem cons_empty (h : Separable (line :: lines)) : Separable ([] :: line :: lines) where
  noLineEnd := List.forall_mem_cons.mpr ⟨by simp, h.noLineEnd⟩
  lastLine := by
    rw [List.getLast?_cons_cons]
    exact h.lastLine

/-- A character is put before the first line. -/
theorem cons_char (h : Separable (line :: lines)) (hfeed : c ≠ '\n') (hreturn : c ≠ '\r') :
    Separable ((c :: line) :: lines) where
  noLineEnd := by
    obtain ⟨hline, hlines⟩ := List.forall_mem_cons.mp h.noLineEnd
    refine List.forall_mem_cons.mpr ⟨?_, hlines⟩
    simpa [hfeed.symm, hreturn.symm] using hline
  lastLine := by
    cases lines with
    | nil => simp
    | cons next others =>
      have hlast := h.lastLine
      rw [List.getLast?_cons_cons] at hlast ⊢
      exact hlast

/-- Lines that can be told apart can be so without the first. -/
theorem tail (h : Separable (line :: lines)) : Separable lines where
  noLineEnd := (List.forall_mem_cons.mp h.noLineEnd).2
  lastLine := by
    cases lines with
    | nil => simp
    | cons next others => simpa only [List.getLast?_cons_cons] using h.lastLine

/-- A line of its own is not empty. -/
theorem line_ne_nil (h : Separable [line]) : line ≠ [] := by
  rintro rfl
  exact h.lastLine rfl

end Separable

/-! ### Splitting and joining -/

/-- The lines of a text can be told apart, and joined they are the text. -/
theorem joined_lineChars {chars : List Char} (h : Regular chars) :
    joined (lineChars chars) = chars ∧ Separable (lineChars chars) := by
  -- Both are proved together: that the last line is not empty comes from the end of the text.
  induction chars using lineChars.induct with
  | case1 => exact ⟨rfl, .nil⟩
  | case2 rest ih => exact absurd rfl h.ne_return
  | case3 rest ih =>
    obtain ⟨hjoined, hlines⟩ := ih (h.tail h.rest_ne_nil)
    cases hsplit : lineChars rest with
    | nil => exact absurd (lineChars_eq_nil hsplit) h.rest_ne_nil
    | cons line lines =>
      rw [hsplit] at hjoined hlines
      rw [lineChars, hsplit, ← hjoined]
      exact ⟨by simp [joined], hlines.cons_empty⟩
  | case4 c rest hreturn hfeed hsplit ih =>
    rw [lineChars.eq_4 c rest hreturn hfeed, hsplit, lineChars_eq_nil hsplit]
    exact ⟨rfl, .singleton hfeed h.ne_return⟩
  | case5 c rest hreturn hfeed line lines hsplit ih =>
    have hrest : rest ≠ [] := by
      rintro rfl
      simp [lineChars] at hsplit
    obtain ⟨hjoined, hlines⟩ := ih (h.tail hrest)
    rw [hsplit] at hjoined hlines
    rw [lineChars.eq_4 c rest hreturn hfeed, hsplit, ← hjoined]
    exact ⟨rfl, hlines.cons_char hfeed h.ne_return⟩

/-- A line is split off at its line feed. -/
theorem lineChars_line_append {line : List Char} (h : '\n' ∉ line ∧ '\r' ∉ line)
    (rest : List Char) : lineChars (line ++ '\n' :: rest) = line :: lineChars rest := by
  induction line with
  | nil => rw [List.nil_append, lineChars]
  | cons c line ih =>
    have hfeed := List.ne_of_not_mem_cons h.1
    have hreturn := List.ne_of_not_mem_cons h.2
    rw [List.cons_append, lineChars.eq_4 _ _ (fun _ heq => absurd heq.symm hreturn) hfeed.symm,
      ih ⟨List.not_mem_of_not_mem_cons h.1, List.not_mem_of_not_mem_cons h.2⟩]

/-- Characters without a line end are one line. -/
theorem lineChars_of_line {line : List Char} (h : '\n' ∉ line ∧ '\r' ∉ line) (hne : line ≠ []) :
    lineChars line = [line] := by
  induction line with
  | nil => exact absurd rfl hne
  | cons c line ih =>
    have hfeed := List.ne_of_not_mem_cons h.1
    have hreturn := List.ne_of_not_mem_cons h.2
    rw [lineChars.eq_4 _ _ (fun _ heq => absurd heq.symm hreturn) hfeed.symm]
    cases line with
    | nil => rfl
    | cons next line =>
      rw [ih ⟨List.not_mem_of_not_mem_cons h.1, List.not_mem_of_not_mem_cons h.2⟩ (by simp)]

/-- Lines that can be told apart are found again after they are joined. -/
theorem lineChars_joined {lines : List (List Char)} (h : Separable lines) :
    lineChars (joined lines) = lines := by
  induction lines with
  | nil => rfl
  | cons line lines ih =>
    have hline := (List.forall_mem_cons.mp h.noLineEnd).1
    cases lines with
    | nil =>
      rw [joined, List.flatMap_nil, List.append_nil]
      exact lineChars_of_line hline h.line_ne_nil
    | cons next others =>
      have hsplit := lineChars_line_append hline (joined (next :: others))
      rw [ih h.tail] at hsplit
      simpa only [joined, List.flatMap_cons, List.cons_append] using hsplit

/-! ### Moving lines -/

/-- A line is empty after it is moved exactly if it was before. -/
theorem padded_eq_nil_iff {width : Nat} {line : List Char} :
    padded width line = [] ↔ line = [] := by
  unfold padded
  cases line <;> simp

/-- A line that is moved twice is moved by both widths. -/
theorem padded_padded (first second : Nat) (line : List Char) :
    padded second (padded first line) = padded (first + second) line := by
  cases line with
  | nil => rfl
  | cons c rest =>
    have hne : (padded first (c :: rest)).isEmpty = false := by
      rw [List.isEmpty_eq_false_iff, Ne, padded_eq_nil_iff]
      simp
    rw [padded, hne, padded, padded]
    simp [← List.append_assoc, Nat.add_comm first second]

/-- Lines can still be told apart after they are moved. -/
theorem Separable.padded {lines : List (List Char)} (h : Separable lines) (width : Nat) :
    Separable (lines.map (padded width)) where
  noLineEnd := by
    intro moved hmoved
    obtain ⟨line, hline, rfl⟩ := List.mem_map.mp hmoved
    obtain ⟨hfeed, hreturn⟩ := h.noLineEnd line hline
    unfold Text.padded
    split <;> simp [hfeed, hreturn]
  lastLine := by
    rw [List.getLast?_map]
    intro hlast
    obtain ⟨line, hline, hempty⟩ := Option.map_eq_some_iff.mp hlast
    rw [padded_eq_nil_iff.mp hempty] at hline
    exact h.lastLine hline

/-- Indentation moves the lines one by one and joins them again. -/
theorem toList_indent_eq_joined (text : String) (width : Nat) :
    (indent text width).toList = joined ((lineChars text.toList).map (padded width)) := by
  cases hlines : lineChars text.toList with
  | nil =>
    rw [indent_of_lines_nil hlines]
    rfl
  | cons line rest =>
    rw [toList_indent hlines]
    simp [joined, paddedAfter, List.flatMap_map]

/-- Indentation moves the lines of a text one by one. -/
theorem lineChars_indent {text : String} (h : Regular text.toList) (width : Nat) :
    lineChars (indent text width).toList = (lineChars text.toList).map (padded width) := by
  rw [toList_indent_eq_joined, lineChars_joined ((joined_lineChars h).2.padded width)]

/-- The widths of two indentations add up. -/
theorem indent_indent {text : String} (h : Regular text.toList) (first second : Nat) :
    indent (indent text first) second = indent text (first + second) := by
  apply String.toList_injective
  rw [toList_indent_eq_joined (indent text first), lineChars_indent h, toList_indent_eq_joined,
    List.map_map]
  congr 2
  funext line
  exact padded_padded first second line

/-! ### Taking the blanks away -/

/-- A line without `width` blanks at its start, if it has them. An empty line has nothing to be
taken away. -/
def outdentLine? (width : Nat) (line : String) : Option String :=
  if line.isEmpty then some ""
  else (line.toList.dropPrefix? (List.replicate width ' ')).map String.ofList

/-- A text without `width` blanks at the start of every line that is not empty, if all of them
have these blanks. -/
def outdent? (text : String) (width : Nat) : Option String :=
  ((lines text).mapM (outdentLine? width)).map (join "\n")

/-- A moved line is moved back. -/
theorem outdentLine?_padded (width : Nat) (line : List Char) :
    outdentLine? width (String.ofList (padded width line)) = some (String.ofList line) := by
  unfold outdentLine? padded
  cases line with
  | nil => rfl
  | cons c rest => simp [List.dropPrefix?_append_of_beq]

/-- Joining lines, as characters. -/
theorem toList_join_lines (lines : List (List Char)) :
    (join "\n" (lines.map String.ofList)).toList = joined lines := by
  cases lines with
  | nil => rfl
  | cons line rest => simp [toList_join_newline, joined, List.flatMap_map]

/-- Taking the blanks away again gives the text back. -/
theorem outdent?_indent {text : String} (h : Regular text.toList) (width : Nat) :
    outdent? (indent text width) width = some text := by
  have hlines : (lines (indent text width)).mapM (outdentLine? width) =
      some ((lineChars text.toList).map String.ofList) := by
    rw [lines, lineChars_indent h, List.mapM_map, List.mapM_map]
    simp only [Function.comp_def, outdentLine?_padded]
    exact List.mapM_pure
  rw [outdent?, hlines, Option.map_some, Option.some_inj]
  apply String.toList_injective
  rw [toList_join_lines, (joined_lineChars h).1]

/-! ### Blocks -/

/-- Indentation composes and can be taken back. For a text without carriage returns that does not
end in a line feed, the widths of two indentations add up, the lines stay as many as they were with
the empty ones among them at their places, and without the blanks that were put before its lines it
is the text again. -/
theorem indent_composes (text : String) (hreturn : '\r' ∉ text.toList)
    (hfeed : text.toList.getLast? ≠ some '\n') (first second : Nat) :
    indent (indent text first) second = indent text (first + second) ∧
      (lines (indent text first)).length = (lines text).length ∧
      (∀ position : Nat, (lines (indent text first))[position]? = some "" ↔
        (lines text)[position]? = some "") ∧
      outdent? (indent text first) first = some text := by
  have hregular : Regular text.toList := ⟨hreturn, hfeed⟩
  have hlines := lineChars_indent hregular first
  refine ⟨indent_indent hregular first second, ?_, fun position => ?_,
    outdent?_indent hregular first⟩
  · simp only [lines, hlines, List.length_map]
  · simp [lines, hlines, padded_eq_nil_iff]

/-- Lines that are indented already and an empty one between them. -/
theorem indent_composes_around_gap :
    '\r' ∉ "a\n\n  b".toList ∧ "a\n\n  b".toList.getLast? ≠ some '\n' ∧
      indent (indent "a\n\n  b" 2) 3 = indent "a\n\n  b" 5 ∧
      outdent? (indent "a\n\n  b" 2) 2 = some "a\n\n  b" := by
  obtain ⟨hsum, -, -, hback⟩ := indent_composes "a\n\n  b" (by decide) (by decide) 2 3
  exact ⟨by decide, by decide, hsum, hback⟩

end GraphRead.Text
