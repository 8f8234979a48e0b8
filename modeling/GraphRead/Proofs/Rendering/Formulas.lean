import GraphRead.Proofs.Rendering.Containment
import GraphRead.Proofs.Rendering.Parts
import GraphRead.Proofs.Text.Words

/-!
# The Boolean structure of printed predicates

A predicate has a formula: branches that have nothing to say are left out, a
junction of one branch is that branch, and comparisons, existence tests and
quantifiers over lists are atoms. This file proves that the printed text of a
predicate is read as its formula if the names in it are ordinary, the functions
are plain and the literals have no maps in them.
-/

namespace GraphRead

open Event (pages)
open Text (Opening Solid)
open Identifier (isPlain isOrdinary)

/-! ### Texts -/

namespace Text

/-- A map can begin an atom, if its entries close their brackets. -/
theorem opening_braces {entries : List String} (h : ∀ entry ∈ entries, Spans entry [] []) :
    Opening (braces entries) := by
  unfold braces
  split
  · exact ⟨show Word "\x7b \x7d" by decide, by decide, by decide⟩
  · have hbrace : "\x7b ".toList = ['\x7b', ' '] := rfl
    have hopens : Solid "\x7b " [] ['\x7d'] := by decide
    have hsolid := Solid.between (by decide) hopens (.join (show Spans ", " [] [] by decide) h)
      (show Solid " \x7d" ['\x7d'] [] by decide)
    exact opening_of_mem hsolid (by simp [hbrace])
      (show '\x7b' ∈ ("\x7b " ++ join ", " entries ++ " \x7d").toList by simp [hbrace]) (by decide)

/-- A body in braces is one word, if it closes its brackets. -/
theorem word_block {text : String} (h : Spans text [] []) :
    Word ("\x7b\n" ++ text ++ "\n\x7d") := by
  have hbrace : "\x7b\n".toList = ['\x7b', '\n'] := rfl
  have hopens : Solid "\x7b\n" [] ['\x7d'] := by decide
  have hsolid := Solid.between (by decide) hopens h (show Solid "\n\x7d" ['\x7d'] [] by decide)
  exact (word_of_mem hsolid (show '\x7b' ∈ _ by simp [hbrace]) (by decide)).1

/-- The symbol of a comparison is a phrase, also if it has a negation in it. -/
theorem phrase_symbol (comparison : Comparison) : ∃ words, Phrase comparison.symbol words := by
  cases comparison with
  | equal | less | lessOrEqual | greater | greaterOrEqual | within | contains | matching =>
    exact ⟨_, .single (by decide)⟩
  | startsWith => exact ⟨["STARTS", "WITH"], by decide, by decide, by decide⟩
  | endsWith => exact ⟨["ENDS", "WITH"], by decide, by decide, by decide⟩
  | isNull => exact ⟨["IS", "NULL"], by decide, by decide, by decide⟩
  | isNotNull => exact ⟨["IS", "NOT", "NULL"], by decide, by decide, by decide⟩

end Text

/-! ### Formulas -/

/-- The formulas of the branches of a junction as one formula, if there are any. -/
def Formula.junction (wrap : List Formula → Formula) : List Formula → Option Formula
  | [] => none
  | parts => some (collapse wrap parts)

mutual
/-- The formula of a predicate that has `first` pages before it. -/
def Predicate.form (width : Nat) (naming : Naming) (first : Nat) : Predicate → Option Formula
  | .all parts => Formula.junction .all (Predicate.formAll width naming first parts)
  | .any parts => Formula.junction .any (Predicate.formAll width naming first parts)
  | .not part => (part.form width naming first).map .not
  | .compare comparison left right =>
    ((Predicate.compare comparison left right).print width naming first).map (.atom ·.text)
  | .exist body => ((Predicate.exist body).print width naming first).map (.atom ·.text)
  | .single v list filter =>
    ((Predicate.single v list filter).print width naming first).map (.atom ·.text)
termination_by structural p => p

/-- The formulas of the predicates that have something to say. -/
def Predicate.formAll (width : Nat) (naming : Naming) (first : Nat) :
    List Predicate → List Formula
  | [] => []
  | p :: rest =>
    (p.form width naming first).toList
      ++ Predicate.formAll width naming (first + pages p.events) rest
termination_by structural ps => ps
end

/-- The function of an application is plain, and there is no map in a literal. -/
def Part.Legible : Part → Prop
  | .expr (.apply function _) => isPlain function = true
  | .expr (.literal value) => value.holdsObject = false
  | _ => True

namespace Fragment

/-- The names in a fragment are ordinary. -/
def Named (naming : Naming) (fragment : Fragment) : Prop :=
  ∀ handle ∈ fragment.handles, isOrdinary (naming.name handle) = true

/-- The text of a fragment spans from brackets to brackets if the names in it are ordinary. -/
def Spans (naming : Naming) (fragment : Fragment) (before after : List Char) : Prop :=
  fragment.Named naming → Text.Spans fragment.text before after

/-- The text of a fragment can begin an atom if the names in it are ordinary. -/
def Phrased (naming : Naming) (fragment : Fragment) : Prop :=
  fragment.Named naming → ∃ word words, Text.Phrase fragment.text (word :: words) ∧ Opening word

/-- The text of a fragment is read as a formula if the names in it are ordinary. -/
def Reads (naming : Naming) (fragment : Fragment) (formula : Formula) : Prop :=
  fragment.Named naming → formula.Reads fragment.text

variable {naming : Naming} {fragment first second body : Fragment} {parts : List Fragment}
  {before middle after : List Char}

/-- The names in the first fragment are ordinary. -/
theorem Named.left (h : (first ++ second).Named naming) : first.Named naming := by
  intro handle hhandle
  exact h handle (List.mem_append_left _ hhandle)

/-- The names in the second fragment are ordinary. -/
theorem Named.right (h : (first ++ second).Named naming) : second.Named naming := by
  intro handle hhandle
  exact h handle (List.mem_append_right _ hhandle)

/-- The names in every part are ordinary. -/
theorem Named.of_mem {texts : List String → String} (h : (assemble texts parts).Named naming) :
    ∀ part ∈ parts, part.Named naming := by
  intro part hpart handle hhandle
  exact h handle (List.mem_flatMap.mpr ⟨part, hpart, hhandle⟩)

/-- What is contained for contained names spans for ordinary ones. -/
theorem Leads.spans (h : fragment.Leads naming before after) :
    fragment.Spans naming before after := by
  intro hnames
  exact (h fun handle hhandle => Text.contained_of_isPlain
    (Identifier.isPlain_of_isOrdinary (hnames handle hhandle))).spans

/-- Fragments span one after the other. -/
theorem Spans.append (hfirst : first.Spans naming before middle)
    (hsecond : second.Spans naming middle after) : (first ++ second).Spans naming before after := by
  intro hnames
  exact (hfirst hnames.left).append (hsecond hnames.right)

/-- Words span what their text spans, since no name is in them. -/
theorem spans_words {text : String} (h : Text.Spans text before after) :
    (words text).Spans naming before after := by
  intro _
  exact h

/-- A fragment that can begin an atom closes its brackets. -/
theorem Phrased.spans (h : fragment.Phrased naming) : fragment.Spans naming [] [] := by
  intro hnames
  obtain ⟨word, rest, hphrase, -⟩ := h hnames
  exact hphrase.spans

/-- A fragment that is read as a formula closes its brackets. -/
theorem Reads.spans {formula : Formula} (h : fragment.Reads naming formula) :
    fragment.Spans naming [] [] := by
  intro hnames
  exact (h hnames).spans

/-- The name of a variable has no brackets. -/
theorem spans_ofVariable (v : Variable) : (ofVariable naming v).Spans naming [] [] :=
  (contained_ofVariable v).spans

/-- A single word can begin an atom, if it is no keyword. -/
theorem phrased_of_opening (h : fragment.Named naming → Opening fragment.text) :
    fragment.Phrased naming := by
  intro hnames
  have hopening := h hnames
  exact ⟨fragment.text, [], .single hopening.toWord, hopening⟩

/-- Fragments that close their brackets do so when joined. -/
theorem spans_join {separator : String} (hseparator : Text.Spans separator [] [])
    (h : ∀ part ∈ parts, part.Spans naming [] []) :
    (assemble (Text.join separator) parts).Spans naming [] [] := by
  intro hnames
  exact .join hseparator (List.forall_mem_map.mpr fun part hpart =>
    h part hpart (hnames.of_mem part hpart))

/-- A map of fragments can begin an atom, if they close their brackets. -/
theorem opening_assemble_braces (h : ∀ part ∈ parts, part.Spans naming [] [])
    (hnames : (assemble braces parts).Named naming) :
    Opening (assemble braces parts).text := by
  refine Text.opening_braces (List.forall_mem_map.mpr fun part hpart => ?_)
  exact h part hpart (hnames.of_mem part hpart)

/-- A block closes its brackets, if its body does. -/
theorem spans_block (width : Nat) {head : String} (hhead : Text.Spans head [] [])
    (h : body.Spans naming [] []) : (block width head body).Spans naming [] [] := by
  intro hnames
  have hopen : Text.Spans (head ++ " \x7b\n") [] ['\x7d'] := hhead.append (by decide)
  exact .between hopen ((h hnames).indent width) (by decide)

/-- Fragments that close their brackets do so when stacked line by line. -/
theorem spans_stacked {head : Fragment} (hhead : head.Spans naming [] [])
    (h : ∀ part ∈ parts, part.Spans naming [] []) : (stacked head parts).Spans naming [] [] :=
  spans_join (by decide) (List.forall_mem_cons.mpr ⟨hhead, h⟩)

/-- A subquery with what it imports closes its brackets. -/
theorem spans_importing (h : ∀ part ∈ parts, part.Spans naming [] [])
    (hbody : body.Spans naming [] []) : (importing parts body).Spans naming [] [] := by
  cases parts with
  | nil => exact hbody
  | cons part rest =>
    exact (((spans_words (by decide)).append (spans_join (by decide) h)).append
      (spans_words (by decide))).append hbody

/-- What is printed for a formula closes its brackets, if anything is. -/
theorem spans_of_rel {printed : Option Fragment} {formula : Option Formula}
    (h : Option.Rel (Reads naming) printed formula) :
    ∀ fragment ∈ printed, fragment.Spans naming [] [] := by
  cases h with
  | none => simp
  | some hreads => simpa using hreads.spans

/-- The texts of fragments are read as the formulas of the fragments, one by one. -/
theorem reads_texts {formulas : List Formula} (h : List.Forall₂ (Reads naming) parts formulas)
    (hnames : ∀ part ∈ parts, part.Named naming) :
    List.Forall₂ Formula.Reads (parts.map text) formulas := by
  induction h with
  | nil => exact .nil
  | cons hfirst _ ih =>
    obtain ⟨hname, hothers⟩ := List.forall_mem_cons.mp hnames
    exact .cons (hfirst hname) (ih hothers)

/-- The parts of a junction are read as the parts of its formula. -/
theorem reads_junction {keyword : String} {wrap : List Formula → Formula}
    {formulas : List Formula}
    (hwrap : ∀ {texts : List String} {formulas : List Formula},
      List.Forall₂ Formula.Reads texts formulas → 2 ≤ texts.length →
        (wrap formulas).Reads ("(" ++ Text.join (" " ++ keyword ++ " ") texts ++ ")"))
    (h : List.Forall₂ (Reads naming) parts formulas) :
    Option.Rel (Reads naming) (junction keyword parts) (Formula.junction wrap formulas) := by
  match parts, formulas, h with
  | [], _, .nil => exact .none
  | [_], _, .cons hpart .nil => exact .some hpart
  | _ :: _ :: _, _ :: _ :: _, h =>
    refine .some fun hnames => ?_
    exact hwrap (reads_texts h hnames.left.right.of_mem) (by simp)

end Fragment

open Fragment (words assemble ofVariable ofParam ofPage spans_words spans_join spans_ofVariable
  contained_ofPage phrased_of_opening)

/-- A quoted key has no brackets, whatever it says. -/
theorem Text.spans_keyed (key : String) : Text.Spans (Identifier.escape key ++ ": ") [] [] :=
  (Text.contained_keyed key).spans

/-- The negation of what is read stands in one pair of parentheses. -/
theorem enclosed_negated (p : Predicate) {text : String} {formula : Formula}
    (h : formula.Reads text) :
    ∃ inner, negated p text = "NOT (" ++ inner ++ ")" ∧ Text.Spans inner [] [] := by
  unfold negated
  split
  next hgrouped =>
    have hhead : text.toList.head? = some '(' := by
      cases p <;> simp_all [Predicate.isGrouped]
    obtain ⟨inner, rfl, hinner⟩ := h.enclosed hhead
    refine ⟨inner, ?_, hinner⟩
    rw [← String.append_assoc, ← String.append_assoc]
    rfl
  next => exact ⟨text, rfl, h.spans⟩

/-- A negation is read as the negation of what is read, in parentheses or not. -/
theorem reads_negated (p : Predicate) {text : String} {formula : Formula}
    (h : formula.Reads text) : formula.not.Reads (negated p text) := by
  unfold negated
  split
  · exact h.negation
  · have hgroup := Formula.reads_group h.spans fun _ hdepth => h.readWith hdepth
    have hnot := hgroup.negation
    rwa [← String.append_assoc, ← String.append_assoc] at hnot

section Trees

variable (width : Nat) (naming : Naming)

mutual
/-- An expression is printed as a phrase. -/
theorem Expr.phrased_print (first : Nat) (e : Expr) (h : ∀ part ∈ e.parts, part.Legible) :
    (e.print width naming first).Phrased naming := by
  cases e with
  | var v =>
    refine phrased_of_opening fun hnames => ?_
    exact Identifier.opening_of_isOrdinary (hnames _ List.mem_cons_self)
  | property v path =>
    refine phrased_of_opening fun hnames => ?_
    have hname := Identifier.opening_of_isOrdinary (hnames _ List.mem_cons_self)
    exact Text.opening_path hname path
  | param p =>
    refine phrased_of_opening fun hnames => ?_
    exact Text.opening_param (Identifier.isPlain_of_isOrdinary (hnames _ List.mem_cons_self))
  | literal value =>
    have hlegible := h (.expr (.literal value)) List.mem_cons_self
    exact phrased_of_opening fun _ => Literal.opening_write value hlegible
  | apply function arguments =>
    obtain ⟨hfunction, harguments⟩ := List.forall_mem_cons.mp h
    have hspans := Expr.spans_printAll first arguments harguments
    refine phrased_of_opening fun hnames => Text.opening_application hfunction ?_
    exact spans_join (by decide) hspans hnames.left.right
  | list items =>
    have hspans := Expr.spans_printAll first items (List.forall_mem_cons.mp h).2
    refine phrased_of_opening fun hnames => Text.opening_list ?_
    exact spans_join (by decide) hspans hnames.left.right
  | map entries =>
    have hspans := Expr.spans_printEntries first entries (List.forall_mem_cons.mp h).2
    exact phrased_of_opening (Fragment.opening_assemble_braces hspans)
  | project v entries =>
    have hspans := MapEntry.spans_printAll first entries (List.forall_mem_cons.mp h).2
    intro hnames
    have hname := Identifier.opening_of_isOrdinary (hnames.left.left _ List.mem_cons_self)
    have hbraces := Fragment.opening_assemble_braces hspans hnames.right
    exact ⟨_, _, (Text.Phrase.single hname.toWord).append (.single hbraces.toWord), hname⟩
  | comprehend pattern filter result =>
    obtain ⟨-, hparts⟩ := List.forall_mem_cons.mp h
    obtain ⟨hcondition, hresult⟩ := List.forall_mem_append.mp hparts
    have hfilter := Predicate.spans_printOptional first filter hcondition
    have hresult := (result.phrased_print (first + pages (Predicate.eventsOptional filter))
      hresult).spans
    have hpattern := (pattern.contained_print naming).spans
    have hbar : (words " | ").Spans naming [] [] := spans_words (by decide)
    rw [Expr.print]
    -- A condition that has nothing to say is left out with its keyword.
    cases hprinted : Predicate.printOptional width naming first filter with
    | none =>
      refine phrased_of_opening fun hnames => ?_
      have hinner := (hpattern.append hbar).append hresult
      simpa [String.append_assoc] using Text.opening_list (hinner fun handle hhandle =>
        hnames handle (by simpa using hhandle))
    | some condition =>
      refine phrased_of_opening fun hnames => ?_
      have hwhere : (words " WHERE ").Spans naming [] [] := spans_words (by decide)
      have hinner := (((hpattern.append hwhere).append (hfilter condition hprinted)).append
        hbar).append hresult
      simpa [String.append_assoc] using Text.opening_list (hinner fun handle hhandle =>
        hnames handle (by simpa using hhandle))
termination_by structural e

/-- Expressions in a row close their brackets. -/
theorem Expr.spans_printAll (first : Nat) (es : List Expr)
    (h : ∀ part ∈ Expr.partsAll es, part.Legible) :
    ∀ part ∈ Expr.printAll width naming first es, part.Spans naming [] [] := by
  cases es with
  | nil => simp [Expr.printAll]
  | cons e rest =>
    obtain ⟨hfirst, hrest⟩ := List.forall_mem_append.mp h
    rw [Expr.printAll, List.forall_mem_cons]
    exact ⟨(e.phrased_print first hfirst).spans, Expr.spans_printAll _ rest hrest⟩
termination_by structural es

/-- The entries of a map close their brackets. -/
theorem Expr.spans_printEntries (first : Nat) (es : List (String × Expr))
    (h : ∀ part ∈ Expr.partsEntries es, part.Legible) :
    ∀ part ∈ Expr.printEntries width naming first es, part.Spans naming [] [] := by
  match es with
  | [] => simp [Expr.printEntries]
  | (key, e) :: rest =>
    obtain ⟨hfirst, hrest⟩ := List.forall_mem_append.mp h
    have hvalue := (e.phrased_print first hfirst).spans
    rw [Expr.printEntries, List.forall_mem_cons]
    exact ⟨(spans_words (Text.spans_keyed key)).append hvalue,
      Expr.spans_printEntries _ rest hrest⟩
termination_by structural es

/-- The entries of a projection close their brackets. -/
theorem MapEntry.spans_printAll (first : Nat) (es : List MapEntry)
    (h : ∀ part ∈ MapEntry.partsAll es, part.Legible) :
    ∀ part ∈ MapEntry.printAll width naming first es, part.Spans naming [] [] := by
  match es with
  | [] => simp [MapEntry.printAll]
  | .stored key :: rest =>
    have hkey : Text.Spans ("." ++ Identifier.escape key) [] [] :=
      .append (by decide) (Text.contained_escape key).spans
    rw [MapEntry.printAll, List.forall_mem_cons]
    exact ⟨spans_words hkey, MapEntry.spans_printAll first rest h⟩
  | .computed key e :: rest =>
    obtain ⟨hfirst, hrest⟩ := List.forall_mem_append.mp h
    have hvalue := (e.phrased_print first hfirst).spans
    rw [MapEntry.printAll, List.forall_mem_cons]
    exact ⟨(spans_words (Text.spans_keyed key)).append hvalue,
      MapEntry.spans_printAll _ rest hrest⟩
termination_by structural es

/-- A predicate is printed as a text that is read as its formula. -/
theorem Predicate.reads_print (first : Nat) (p : Predicate) (h : ∀ part ∈ p.parts, part.Legible) :
    Option.Rel (Fragment.Reads naming) (p.print width naming first)
      (p.form width naming first) := by
  cases p with
  | compare comparison left right =>
    obtain ⟨-, hparts⟩ := List.forall_mem_cons.mp h
    obtain ⟨hleft, hright⟩ := List.forall_mem_append.mp hparts
    have hphrase := left.phrased_print first hleft
    have hoptional := Expr.phrase_printOptional (first + pages left.events) right hright
    obtain ⟨symbols, hsymbol⟩ := Text.phrase_symbol comparison
    rw [Predicate.form, Predicate.print]
    split
    · refine .some fun hnames => ?_
      obtain ⟨word, rest, hfirst, hopening⟩ := hphrase hnames.left.left
      exact Formula.reads_atom (hfirst.append hsymbol) hopening
    · refine .some fun hnames => ?_
      obtain ⟨word, rest, hfirst, hopening⟩ := hphrase hnames.left.left.left
      obtain ⟨others, hall⟩ := hoptional hnames.right (hfirst.append hsymbol)
      exact Formula.reads_atom hall hopening
  | all parts =>
    have hparts := Predicate.reads_printAll first parts (List.forall_mem_cons.mp h).2
    exact Fragment.reads_junction Formula.reads_all hparts
  | any parts =>
    have hparts := Predicate.reads_printAll first parts (List.forall_mem_cons.mp h).2
    exact Fragment.reads_junction Formula.reads_any hparts
  | not part =>
    have hpart := part.reads_print first (List.forall_mem_cons.mp h).2
    rw [Predicate.print, Predicate.form]
    generalize part.print width naming first = printed at hpart ⊢
    generalize part.form width naming first = formula at hpart ⊢
    cases hpart with
    | none => exact .none
    | some hreads => exact .some fun hnames => reads_negated part (hreads hnames)
  | exist body =>
    have hbody := body.spans_print first (List.forall_mem_cons.mp h).2
    refine .some fun hnames => ?_
    have hkeyword : Opening "EXISTS" := ⟨by decide, by decide, by decide⟩
    -- The body is indented after it has been printed, which keeps its brackets.
    have hblock := Text.word_block ((hbody hnames).indent width)
    have hreads := Formula.reads_atom
      ((Text.Phrase.single hkeyword.toWord).append (.single hblock)) hkeyword
    rwa [← String.append_assoc, ← String.append_assoc] at hreads
  | single v list filter =>
    obtain ⟨-, hparts⟩ := List.forall_mem_cons.mp h
    obtain ⟨hlist, hfilter⟩ := List.forall_mem_append.mp hparts
    have hlist := (list.phrased_print first hlist).spans
    have hfilter := Predicate.spans_printOptional (first + pages list.events) filter hfilter
    -- Where there is no condition, `true` is printed in its place.
    have hcondition : ((Predicate.printOptional width naming (first + pages list.events)
        filter).getD (words "true")).Spans naming [] [] := by
      cases hprinted : Predicate.printOptional width naming (first + pages list.events) filter with
      | none => exact spans_words (by decide)
      | some condition => exact hfilter condition hprinted
    have hin : (words " IN ").Spans naming [] [] := spans_words (by decide)
    have hwhere : (words " WHERE ").Spans naming [] [] := spans_words (by decide)
    have hinner := ((((spans_ofVariable v).append hin).append hlist).append hwhere).append
      hcondition
    refine .some fun hnames => ?_
    have hsingle := Text.opening_application (show isPlain "single" = true by decide)
      (hinner fun handle hhandle => hnames handle (by simpa using hhandle))
    have hreads := Formula.reads_atom (.single hsingle.toWord) hsingle
    simpa [Fragment.text_append, String.append_assoc] using hreads
termination_by structural p

/-- The right side of a comparison continues the phrase of the left side, if there is one. -/
theorem Expr.phrase_printOptional (first : Nat) (e : Option Expr)
    (h : ∀ part ∈ Expr.partsOptional e, part.Legible) :
    (Expr.printOptional width naming first e).Named naming →
        ∀ {text : String} {word : String} {rest : List String}, Text.Phrase text (word :: rest) →
          ∃ others, Text.Phrase (text ++ (Expr.printOptional width naming first e).text)
            (word :: others) := by
  cases e with
  | none =>
    intro hnames text word rest hphrase
    refine ⟨rest, ?_⟩
    simpa [Expr.printOptional] using hphrase
  | some e =>
    intro hnames text word rest hphrase
    obtain ⟨next, others, hnext, -⟩ := e.phrased_print first h hnames.right
    refine ⟨rest ++ next :: others, ?_⟩
    simpa [Expr.printOptional, String.append_assoc] using hphrase.append hnext
termination_by structural e

/-- A predicate that may be absent closes its brackets. -/
theorem Predicate.spans_printOptional (first : Nat) (p : Option Predicate)
    (h : ∀ part ∈ Predicate.partsOptional p, part.Legible) :
    ∀ fragment ∈ Predicate.printOptional width naming first p, fragment.Spans naming [] [] := by
  cases p with
  | none => simp [Predicate.printOptional]
  | some p => exact Fragment.spans_of_rel (p.reads_print first h)
termination_by structural p

/-- Predicates in a row are read as their formulas, one by one. -/
theorem Predicate.reads_printAll (first : Nat) (ps : List Predicate)
    (h : ∀ part ∈ Predicate.partsAll ps, part.Legible) :
    List.Forall₂ (Fragment.Reads naming) (Predicate.printAll width naming first ps)
        (Predicate.formAll width naming first ps) := by
  cases ps with
  | nil => exact .nil
  | cons p rest =>
    obtain ⟨hfirst, hrest⟩ := List.forall_mem_append.mp h
    have hprinted := p.reads_print first hfirst
    have hothers := Predicate.reads_printAll (first + pages p.events) rest hrest
    rw [Predicate.printAll, Predicate.formAll]
    revert hprinted
    generalize p.print width naming first = printed
    generalize p.form width naming first = formula
    rintro (_ | hreads)
    · exact .cons ‹_› hothers
    · exact hothers
termination_by structural ps

/-- Items in a row close their brackets. -/
theorem Item.spans_printAll (clause : ReadingClause) (first : Nat) (items : List Item)
    (h : ∀ part ∈ Item.partsAll items, part.Legible) :
    ∀ part ∈ Item.printAll width naming clause first items, part.Spans naming [] [] := by
  cases items with
  | nil => simp [Item.printAll]
  | cons item rest =>
    obtain ⟨hfirst, hrest⟩ := List.forall_mem_append.mp h
    rw [Item.printAll, List.forall_mem_cons]
    exact ⟨item.spans_print first hfirst, Item.spans_printAll clause _ rest hrest⟩
termination_by structural items

/-- An item closes its brackets. -/
theorem Item.spans_print (first : Nat) (item : Item) (h : ∀ part ∈ item.parts, part.Legible) :
    (item.print width naming first).Spans naming [] [] := by
  cases item with
  | plain e =>
    exact (e.phrased_print first h).spans.append (Item.contained_printAlias naming _).spans
  | aliased e _ =>
    exact (e.phrased_print first h).spans.append (Item.contained_printAlias naming _).spans
  | named e _ =>
    exact (e.phrased_print first h).spans.append (Item.contained_printAlias naming _).spans
termination_by structural item

/-- Sort keys close their brackets. -/
theorem Statement.spans_printKeys (first : Nat) (keys : List (Expr × SortDirection))
    (h : ∀ part ∈ Statement.partsKeys keys, part.Legible) :
    ∀ part ∈ Statement.printKeys width naming first keys, part.Spans naming [] [] := by
  match keys with
  | [] => simp [Statement.printKeys]
  | (e, direction) :: rest =>
    have hdirection : Text.Spans direction.keyword [] [] := by cases direction <;> decide
    obtain ⟨hfirst, hrest⟩ := List.forall_mem_append.mp h
    have hkey := (e.phrased_print first hfirst).spans
    rw [Statement.printKeys, List.forall_mem_cons]
    refine ⟨?_, Statement.spans_printKeys _ rest hrest⟩
    exact (hkey.append (spans_words (by decide))).append (spans_words hdirection)
termination_by structural keys

/-- A statement is printed as a text that leaves nothing open. -/
theorem Statement.spans_print (first : Nat) (s : Statement) (h : ∀ part ∈ s.parts, part.Legible) :
    (s.print width naming first).Spans naming [] [] := by
  cases s with
  | matching optional pattern clauses =>
    have hkeyword : Text.Spans (if optional then "OPTIONAL MATCH " else "MATCH ") [] [] := by
      cases optional <;> decide
    have hhead := (spans_words hkeyword).append (pattern.contained_print naming).spans
    exact Fragment.spans_stacked hhead (Statement.spans_printAll first clauses h)
  | filtering parts =>
    have hjunction := Fragment.spans_of_rel (Fragment.reads_junction Formula.reads_all
      (Predicate.reads_printAll first parts h))
    rw [Statement.print]
    cases hprinted : Fragment.junction "AND" (Predicate.printAll width naming first parts) with
    | none => exact spans_words (by decide)
    | some printed => exact (spans_words (by decide)).append (hjunction printed hprinted)
  | returning distinct items =>
    have hkeyword : Text.Contained (withDistinct "RETURN" distinct ++ " ") :=
      contained_withDistinct (by decide) distinct
    have hitems := Item.spans_printAll .returning first items h
    exact (spans_words hkeyword.spans).append (spans_join (by decide) hitems)
  | calling body imports base clauses =>
    obtain ⟨hbody, hclauses⟩ := List.forall_mem_append.mp h
    have hothers := Statement.spans_printAll (first + pages body.events) clauses hclauses
    refine Fragment.spans_stacked (Fragment.spans_block width (by decide) ?_) hothers
    refine Fragment.spans_importing ?_ (body.spans_print first hbody)
    exact List.forall_mem_map.mpr fun v _ => spans_ofVariable v
  | passing distinct items clauses =>
    obtain ⟨hitems, hclauses⟩ := List.forall_mem_append.mp h
    have hkeyword : Text.Contained (withDistinct "WITH" distinct ++ " ") :=
      contained_withDistinct (by decide) distinct
    have hspans := Item.spans_printAll .passing first items hitems
    refine Fragment.spans_stacked ?_ (Statement.spans_printAll _ clauses hclauses)
    exact (spans_words hkeyword.spans).append (spans_join (by decide) hspans)
  | passingAll distinct clauses =>
    have hkeyword : Text.Spans (withDistinct "WITH" distinct ++ " *") [] [] := by
      cases distinct <;> decide
    exact Fragment.spans_stacked (spans_words hkeyword) (Statement.spans_printAll first clauses h)
  | ordering keys =>
    have hkeys := Statement.spans_printKeys first keys h
    rw [Statement.print]
    split
    · exact spans_words (by decide)
    · exact (spans_words (by decide)).append (spans_join (by decide) hkeys)
  | skipping count => exact (spans_words (by decide)).append (contained_ofPage first count).spans
  | limiting count => exact (spans_words (by decide)).append (contained_ofPage first count).spans
termination_by structural s

/-- Clauses in a row close their brackets. -/
theorem Statement.spans_printAll (first : Nat) (ss : List Statement)
    (h : ∀ part ∈ Statement.partsAll ss, part.Legible) :
    ∀ part ∈ Statement.printAll width naming first ss, part.Spans naming [] [] := by
  cases ss with
  | nil => simp [Statement.printAll]
  | cons s rest =>
    obtain ⟨hfirst, hothers⟩ := List.forall_mem_append.mp h
    have hrest := Statement.spans_printAll (first + pages s.events) rest hothers
    rw [Statement.printAll]
    split
    · exact hrest
    · rw [List.forall_mem_cons]
      exact ⟨s.spans_print first hfirst, hrest⟩
termination_by structural ss
end

end Trees

end GraphRead
