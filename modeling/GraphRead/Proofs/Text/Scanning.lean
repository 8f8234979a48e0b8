import GraphRead.Proofs.Text.Indentation

/-!
# Scanning text with quotes and brackets

A scanner goes through a text from the left. It knows whether it stands in a name
between backticks, in a string or outside of both, and which brackets are still
to be closed; a bracket inside quotes does not count. A text spans from brackets
to brackets if it leads the scanner from the ones to the others and leaves no
quotation open. A word does so without a blank outside of quotes and brackets.
-/

namespace GraphRead.Text

/-- The quotation that a scanner stands in. -/
inductive Zone where
  | plain
  | name
  /-- A string between single or double quotes. -/
  | string (double : Bool)
  /-- After a backslash in such a string. -/
  | escape (double : Bool)
deriving DecidableEq

/-- The mark at both ends of a string. -/
def quoteMark (double : Bool) : Char := if double then '\x22' else '\x27'

/-- The state of a scanner: where it stands, and the brackets to be closed, innermost first. -/
structure Scan where
  zone : Zone
  pending : List Char
deriving DecidableEq

namespace Scan

/-- Outside of all quotes, within the brackets that are to be closed. -/
def within (pending : List Char) : Scan := ⟨.plain, pending⟩

/-- Outside of all quotes and brackets. -/
def top : Scan := within []

/-- The characters that may follow a backslash in a string. -/
def isEscape (c : Char) : Bool := "\\\x27\x22\x60bfnrtu".toList.contains c

/-- One character further. There is no answer at a bracket that does not match, and after a
backslash that escapes nothing. -/
def step (state : Scan) (c : Char) : Option Scan :=
  match state.zone with
  | .plain =>
    if c = '\x60' then some ⟨.name, state.pending⟩
    else if c = quoteMark false then some ⟨.string false, state.pending⟩
    else if c = quoteMark true then some ⟨.string true, state.pending⟩
    else (bracketStep state.pending c).map within
  | .name => some ⟨if c = '\x60' then .plain else .name, state.pending⟩
  | .string double =>
    if c = quoteMark double then some (within state.pending)
    else if c = '\\' then some ⟨.escape double, state.pending⟩
    else some state
  | .escape double => if isEscape c then some ⟨.string double, state.pending⟩ else none

/-- All characters further. -/
def run (state : Scan) (chars : List Char) : Option Scan := chars.foldlM step state

/-- One character further in the same word, which ends at a blank outside of everything. -/
def wordStep (state : Scan) (c : Char) : Option Scan :=
  if state = top ∧ c.isWhitespace = true then none else state.step c

/-- All characters further in the same word. -/
def runWord (state : Scan) (chars : List Char) : Option Scan := chars.foldlM wordStep state

/-- The same with more brackets around. -/
def around (state : Scan) (more : List Char) : Scan := ⟨state.zone, state.pending ++ more⟩

variable {state middle after : Scan} {chars : List Char} {c : Char}

/-- A scanner goes through the first character and then through the others. -/
theorem run_cons (state : Scan) (c : Char) (chars : List Char) :
    run state (c :: chars) = (state.step c).bind (run · chars) := List.foldlM_cons

/-- A scanner goes through a longer text from where the first part leads it. -/
theorem run_append (hfirst : run state chars = some middle) (more : List Char) :
    run state (chars ++ more) = run middle more := by
  rw [run, List.foldlM_append]
  exact congrArg (· >>= fun next => run next more) hfirst

/-- A word is scanned from its first character on. -/
theorem runWord_cons (state : Scan) (c : Char) (chars : List Char) :
    runWord state (c :: chars) = (state.wordStep c).bind (runWord · chars) := List.foldlM_cons

/-- A longer word is scanned from where the first part leads. -/
theorem runWord_append (hfirst : runWord state chars = some middle) (more : List Char) :
    runWord state (chars ++ more) = runWord middle more := by
  rw [runWord, List.foldlM_append]
  exact congrArg (· >>= fun next => runWord next more) hfirst

/-- A step in a word is a step. -/
theorem step_of_wordStep (h : state.wordStep c = some after) : state.step c = some after := by
  unfold wordStep at h
  split at h
  · simp at h
  · exact h

/-- A word is scanned as a text. -/
theorem run_of_runWord (h : runWord state chars = some after) : run state chars = some after := by
  induction chars generalizing state with
  | nil => exact h
  | cons c rest ih =>
    rw [runWord_cons, Option.bind_eq_some_iff] at h
    obtain ⟨next, hstep, hrest⟩ := h
    rw [run_cons, step_of_wordStep hstep]
    exact ih hrest

/-- A character reads only the innermost bracket, so there may be more around. -/
theorem step_around (h : state.step c = some after) (more : List Char) :
    (state.around more).step c = some (after.around more) := by
  obtain ⟨zone, pending⟩ := state
  cases zone with
  | plain =>
    simp only [step, around] at h ⊢
    split_ifs at h ⊢ with hname hsingle hdouble
    · cases h
      rfl
    · cases h
      rfl
    · cases h
      rfl
    · obtain ⟨next, hnext, rfl⟩ := Option.map_eq_some_iff.mp h
      rw [bracketStep_frame hnext more]
      rfl
  | name =>
    cases h
    rfl
  | string double =>
    simp only [step, around] at h ⊢
    split_ifs at h ⊢ <;> cases h <;> rfl
  | escape double =>
    simp only [step, around] at h ⊢
    split_ifs at h ⊢
    cases h
    rfl

/-- Inside brackets a blank does not end a word. -/
theorem runWord_around (h : run state chars = some after) {more : List Char} (hmore : more ≠ []) :
    runWord (state.around more) chars = some (after.around more) := by
  induction chars generalizing state with
  | nil =>
    cases h
    rfl
  | cons c rest ih =>
    rw [run_cons, Option.bind_eq_some_iff] at h
    obtain ⟨next, hstep, hrest⟩ := h
    have hinside : state.around more ≠ top := by
      intro htop
      exact hmore (List.append_eq_nil_iff.mp (congrArg pending htop)).2
    rw [runWord_cons, wordStep, if_neg (fun hend => hinside hend.1), step_around hstep]
    exact ih hrest

/-- A scanner goes the same way with more brackets around. -/
theorem run_around (h : run state chars = some after) (more : List Char) :
    run (state.around more) chars = some (after.around more) := by
  cases more with
  | nil => simpa [around] using h
  | cons c rest => exact run_of_runWord (runWord_around h (by simp))

end Scan

open Scan (within top)

/-- A text leads a scanner from brackets that are to be closed before it to those that are to be
closed after it, and leaves no quotation open. -/
def Spans (text : String) (before after : List Char) : Prop :=
  Scan.run (within before) text.toList = some (within after)

/-- A text that spans, and that is read as a part of one word. -/
def Solid (text : String) (before after : List Char) : Prop :=
  Scan.runWord (within before) text.toList = some (within after)

instance (text : String) (before after : List Char) : Decidable (Spans text before after) :=
  inferInstanceAs (Decidable (_ = _))

instance (text : String) (before after : List Char) : Decidable (Solid text before after) :=
  inferInstanceAs (Decidable (_ = _))

namespace Spans

variable {first second text : String} {before middle after : List Char}

/-- Texts span one after the other, if the second starts from where the first ends. -/
theorem append (hfirst : Spans first before middle) (hsecond : Spans second middle after) :
    Spans (first ++ second) before after := by
  unfold Spans
  rw [String.toList_append, Scan.run_append hfirst]
  exact hsecond

/-- A text spans so with more brackets around it. -/
theorem frame (h : Spans text before after) (more : List Char) :
    Spans text (before ++ more) (after ++ more) := Scan.run_around h more

/-- A text whose brackets match may stand inside any brackets. -/
theorem inside (h : Spans text [] []) (pending : List Char) : Spans text pending pending :=
  h.frame pending

/-- A text whose brackets match, between texts that open and close a bracket. -/
theorem between {pending : List Char} (hfirst : Spans first [] pending) (h : Spans text [] [])
    (hsecond : Spans second pending []) : Spans (first ++ text ++ second) [] [] :=
  (hfirst.append (h.inside pending)).append hsecond

/-- Pieces that close their brackets do so when joined. -/
theorem join {separator : String} (hseparator : Spans separator [] []) {pieces : List String}
    (h : ∀ piece ∈ pieces, Spans piece [] []) : Spans (join separator pieces) [] [] := by
  match pieces with
  | [] => exact show Spans "" [] [] by decide
  | [piece] => exact h piece (by simp)
  | piece :: next :: rest =>
    rw [Text.join]
    refine ((h piece (by simp)).append hseparator).append ?_
    exact join hseparator fun other hother => h other (List.mem_cons_of_mem piece hother)

end Spans

namespace Solid

variable {first second text : String} {before middle after : List Char}

/-- A part of a word spans. -/
theorem spans (h : Solid text before after) : Spans text before after := Scan.run_of_runWord h

/-- Parts of a word in a row are a part of it. -/
theorem append (hfirst : Solid first before middle) (hsecond : Solid second middle after) :
    Solid (first ++ second) before after := by
  unfold Solid
  rw [String.toList_append, Scan.runWord_append hfirst]
  exact hsecond

/-- Pieces of words are put together to a part of a word. -/
theorem concat {pieces : List String} (h : ∀ piece ∈ pieces, Solid piece [] []) :
    Solid (String.join pieces) [] [] := by
  induction pieces with
  | nil => exact show Solid "" [] [] by decide
  | cons piece rest ih =>
    rw [String.join_cons]
    exact (h piece (by simp)).append (ih fun other hother => h other (by simp [hother]))

/-- Between texts that open and close a bracket, there may be blanks. -/
theorem between {pending : List Char} (hpending : pending ≠ []) (hfirst : Solid first [] pending)
    (h : Spans text [] []) (hsecond : Solid second pending []) :
    Solid (first ++ text ++ second) [] [] :=
  (hfirst.append (Scan.runWord_around h hpending)).append hsecond

end Solid

/-- A scanner agrees with the reading that knows only backticks, as long as no string begins. -/
theorem run_of_unquoted {chars before after : List Char} (quoted : Bool)
    (hsyntactic : (unquoted quoted chars).all isSyntactic = true)
    (hnested : brackets before (unquoted quoted chars) = some after) :
    Scan.run ⟨if quoted then .name else .plain, before⟩ chars =
      some ⟨if endsQuoted quoted chars then .name else .plain, after⟩ := by
  induction chars generalizing quoted before with
  | nil =>
    cases hnested
    rfl
  | cons c rest ih =>
    rw [Scan.run_cons, endsQuoted]
    by_cases hquote : c = '\x60'
    · rw [if_pos hquote]
      simp only [unquoted, if_pos hquote] at hsyntactic hnested
      have hstep : Scan.step ⟨if quoted then .name else .plain, before⟩ c =
          some ⟨if !quoted then .name else .plain, before⟩ := by
        cases quoted <;> simp [Scan.step, hquote]
      rw [hstep]
      exact ih (!quoted) hsyntactic hnested
    · rw [if_neg hquote]
      cases quoted with
      | true =>
        simp only [unquoted, if_neg hquote, if_true] at hsyntactic hnested
        have hstep : Scan.step ⟨.name, before⟩ c = some ⟨.name, before⟩ := by
          simp [Scan.step, hquote]
        exact hstep ▸ ih true hsyntactic hnested
      | false =>
        simp only [unquoted, if_neg hquote, Bool.false_eq_true, if_false, List.all_cons,
          Bool.and_eq_true] at hsyntactic hnested
        obtain ⟨hc, hrest⟩ := hsyntactic
        -- No syntactic character opens a string.
        have hmark (double : Bool) : c ≠ quoteMark double := by
          rintro rfl
          revert hc
          cases double <;> decide
        rw [brackets, List.foldlM_cons] at hnested
        obtain ⟨next, hbracket, hothers⟩ := Option.bind_eq_some_iff.mp hnested
        have hstep : Scan.step ⟨.plain, before⟩ c = some ⟨.plain, next⟩ := by
          simp [Scan.step, hquote, hmark, hbracket, within]
        exact hstep ▸ ih false hrest hothers

/-- A text that leads spans, since a syntactic one has no strings. -/
theorem Leads.spans {text : String} {before after : List Char} (h : Leads text before after) :
    Spans text before after := by
  have hrun := run_of_unquoted false h.syntactic h.nested
  rwa [h.closed] at hrun

/-! ### Indentation -/

/-- The characters that indentation puts in and leaves out. -/
def isSpacing (c : Char) : Bool := c = ' ' || c = '\r' || c = '\n'

namespace Scan

/-- Whether a backslash stands before. -/
def isEscaping (state : Scan) : Bool :=
  match state.zone with
  | .escape _ => true
  | _ => false

variable {state after : Scan} {chars : List Char} {c : Char}

/-- Spacing changes nothing, but it may not be escaped. -/
theorem step_spacing (hc : isSpacing c = true) :
    state.step c = if state.isEscaping then none else some state := by
  obtain ⟨zone, pending⟩ := state
  have hcases : c = ' ' ∨ c = '\r' ∨ c = '\n' := by simpa [isSpacing, or_assoc] using hc
  cases zone with
  | plain | name => rcases hcases with rfl | rfl | rfl <;> rfl
  | string double | escape double =>
    cases double <;> rcases hcases with rfl | rfl | rfl <;> rfl

/-- What comes before spacing is not escaped. -/
theorem isEscaping_of_step (hc : isSpacing c = true) (h : state.step c = some after) :
    state.isEscaping = false ∧ after = state := by
  rw [step_spacing hc] at h
  cases hescaping : state.isEscaping <;> simp_all

/-- A scanner stays where it is at blanks, unless a backslash stands before. -/
theorem run_blanks (hstate : state.isEscaping = false) (width : Nat) (chars : List Char) :
    run state (List.replicate width ' ' ++ chars) = run state chars := by
  induction width with
  | zero => rfl
  | succ width ih =>
    rw [List.replicate_succ, List.cons_append, run_cons, step_spacing (by decide), hstate]
    exact ih

/-- A scanner goes the same way through a line that is moved. -/
theorem run_padded (hstate : state.isEscaping = false) (width : Nat) (line more : List Char) :
    run state (padded width line ++ more) = run state (line ++ more) := by
  unfold padded
  split
  next hempty => rw [List.isEmpty_iff.mp hempty]
  next => rw [List.append_assoc, run_blanks hstate]

/-- A line end in front of lines that are moved. The last line end has none after it. -/
theorem run_lineEnd (width : Nat) {rest : List Char} (h : run state ('\n' :: rest) = some after)
    (ih : ∀ line lines, lineChars rest = line :: lines → run state rest = some after →
      run state (line ++ paddedAfter width lines) = some after) :
    run state (paddedAfter width (lineChars rest)) = some after := by
  rw [run_cons, Option.bind_eq_some_iff] at h
  obtain ⟨next, hstep, hrest⟩ := h
  obtain ⟨hstate, rfl⟩ := isEscaping_of_step (by decide) hstep
  cases hlines : lineChars rest with
  | nil =>
    rw [lineChars_eq_nil hlines] at hrest
    exact hrest
  | cons line lines =>
    rw [paddedAfter, List.flatMap_cons, List.cons_append, run_cons, hstep]
    exact (run_padded hstate width line _).trans (ih line lines hlines hrest)

/-- Splitting into lines and moving all of them but the first leads to the same state. -/
theorem run_lineChars (width : Nat) {line : List Char} {lines : List (List Char)}
    (h : run state chars = some after) (hlines : lineChars chars = line :: lines) :
    run state (line ++ paddedAfter width lines) = some after := by
  induction chars using lineChars.induct generalizing state line lines with
  | case1 => simp [lineChars] at hlines
  | case2 rest ih =>
    rw [lineChars] at hlines
    cases hlines
    rw [run_cons, Option.bind_eq_some_iff] at h
    obtain ⟨next, hstep, hrest⟩ := h
    obtain ⟨-, rfl⟩ := isEscaping_of_step (by decide) hstep
    exact run_lineEnd width hrest fun _ _ hlines hrun => ih hrun hlines
  | case3 rest ih =>
    rw [lineChars] at hlines
    cases hlines
    exact run_lineEnd width h fun _ _ hlines hrun => ih hrun hlines
  | case4 c rest hreturn hfeed hnone ih =>
    rw [lineChars.eq_4 c rest hreturn hfeed, hnone] at hlines
    cases hlines
    rwa [lineChars_eq_nil hnone] at h
  | case5 c rest hreturn hfeed next others hsome ih =>
    rw [lineChars.eq_4 c rest hreturn hfeed, hsome] at hlines
    cases hlines
    rw [run_cons, Option.bind_eq_some_iff] at h
    obtain ⟨middle, hstep, hrest⟩ := h
    rw [List.cons_append, run_cons, hstep]
    exact ih hrest hsome

end Scan

/-- Indentation leads from the same brackets to the same brackets. -/
theorem Spans.indent {text : String} {before after : List Char} (h : Spans text before after)
    (width : Nat) : Spans (indent text width) before after := by
  unfold Spans at h ⊢
  cases hlines : lineChars text.toList with
  | nil =>
    rw [lineChars_eq_nil hlines] at h
    rwa [indent_of_lines_nil hlines]
  | cons line rest =>
    rw [toList_indent hlines, Scan.run_padded rfl]
    exact Scan.run_lineChars width h hlines

end GraphRead.Text
