import GraphRead.Proofs.Rendering.Containment
import GraphRead.Proofs.Text.Indentation
import Mathlib.Logic.Function.Iterate

/-!
# Layouts

The text of a statement depends on the width of indentation only through the
bodies of subqueries and of existence tests, which are indented as a whole after
they have been printed. A layout is a text with its bodies left as they are, so it
does not depend on the width. Every statement has one. From its layout follow the
quotations of a statement with the number of bodies around each of them, which
says what indentation does to them, and that all else is the same for all widths
apart from blanks at the start of lines.
-/

namespace GraphRead

open Event (pages)
open Text (endsQuoted quotations flushed atStart moved)

/-- A text with bodies that are still to be indented. -/
inductive Layout where
  | words (text : String)
  | append (first second : Layout)
  | block (body : Layout)

/-- A quotation with the number of bodies around it. -/
structure Quotation where
  depth : Nat
  content : List Char

namespace Quotation

/-- The quotation inside one more body. -/
def deeper (q : Quotation) : Quotation := ⟨q.depth + 1, q.content⟩

/-- What is printed for a quotation. Its lines are moved once for every body around it. -/
def printed (width : Nat) (q : Quotation) : List Char := (moved width)^[q.depth] q.content

/-- One more body moves a quotation once more. -/
theorem printed_deeper (width : Nat) (q : Quotation) :
    q.deeper.printed width = moved width (q.printed width) :=
  Function.iterate_succ_apply' ..

/-- A quotation is printed as it is if it has no line feed or if no body is around it. -/
theorem printed_eq_content {q : Quotation} (h : 0 < q.depth → '\n' ∉ q.content) (width : Nat) :
    q.printed width = q.content := by
  rcases Nat.eq_zero_or_pos q.depth with hzero | hpos
  · rw [printed, hzero]
    rfl
  · exact Function.iterate_fixed (Text.moved_eq_self (h hpos) width) q.depth

end Quotation

namespace Layout

instance : Append Layout := ⟨append⟩

/-- The text of a layout with its bodies indented. -/
def render (width : Nat) : Layout → String
  | words text => text
  | append first second => first.render width ++ second.render width
  | block body => "\x7b\n" ++ Text.indent (body.render width) width ++ "\n\x7d"

/-- All quotations of a layout are closed where they are opened. -/
def Closed : Layout → Prop
  | words text => endsQuoted false text.toList = false
  | append first second => first.Closed ∧ second.Closed
  | block body => body.Closed

/-- The quotations of a layout. -/
def quoted : Layout → List Quotation
  | words text => (quotations false text.toList).map (Quotation.mk 0)
  | append first second => first.quoted ++ second.quoted
  | block body => body.quoted.map Quotation.deeper

/-- Words are rendered as they are. -/
@[simp]
theorem render_words (width : Nat) (text : String) : (words text).render width = text := rfl

/-- Layouts in a row are rendered one after the other. -/
@[simp]
theorem render_append (width : Nat) (first second : Layout) :
    (first ++ second).render width = first.render width ++ second.render width := rfl

/-- A body is indented between the lines of its braces. -/
theorem toList_render_block (body : Layout) (width : Nat) :
    ((block body).render width).toList =
      '\x7b' :: '\n' :: ((Text.indent (body.render width) width).toList ++ ['\n', '\x7d']) := by
  have hopen : "\x7b\n".toList = ['\x7b', '\n'] := rfl
  have hclose : "\n\x7d".toList = ['\n', '\x7d'] := rfl
  rw [render, String.toList_append, String.toList_append, hopen, hclose, List.append_assoc,
    List.cons_append, List.cons_append, List.nil_append]

/-- A closed layout has a closed text. -/
theorem endsQuoted_render {layout : Layout} (h : layout.Closed) (width : Nat) :
    endsQuoted false (layout.render width).toList = false := by
  induction layout with
  | words => exact h
  | append first second ihfirst ihsecond =>
    rw [render, String.toList_append, Text.endsQuoted_append, ihfirst h.1, ihsecond h.2]
  | block body ih =>
    rw [toList_render_block, Text.endsQuoted_cons _ (by decide), Text.endsQuoted_cons _ (by decide),
      Text.endsQuoted_append, (Text.respaced_indent _ width).endsQuoted_eq, ih h]
    rfl

/-- The quotations in the text of a closed layout are those of the layout. -/
theorem quotations_render {layout : Layout} (h : layout.Closed) (width : Nat) :
    quotations false (layout.render width).toList =
      layout.quoted.map (Quotation.printed width) := by
  induction layout with
  | words text =>
    rw [quoted, List.map_map]
    exact (List.map_id _).symm
  | append first second ihfirst ihsecond =>
    rw [render, String.toList_append, Text.quotations_append (endsQuoted_render h.1 width),
      ihfirst h.1, ihsecond h.2, quoted, List.map_append]
  | block body ih =>
    have hclosed : body.Closed := h
    have hbody := endsQuoted_render hclosed width
    have hindent : endsQuoted false (Text.indent (body.render width) width).toList = false := by
      rw [(Text.respaced_indent _ width).endsQuoted_eq, hbody]
    have hdeeper : Quotation.printed width ∘ Quotation.deeper =
        moved width ∘ Quotation.printed width := funext (Quotation.printed_deeper width)
    rw [toList_render_block, Text.quotations_outside _ (by decide),
      Text.quotations_outside _ (by decide), Text.quotations_append hindent,
      Text.quotations_indent hbody, ih h, quoted, List.map_map, List.map_map, hdeeper]
    exact List.append_nil _

/-- Texts of a layout begin with the same character for all widths. -/
theorem head?_render (layout : Layout) (width width' : Nat) :
    (layout.render width).toList.head? = (layout.render width').toList.head? := by
  induction layout with
  | words => rfl
  | append first second ihfirst ihsecond =>
    rw [render, render, String.toList_append, String.toList_append, List.head?_append,
      List.head?_append, ihfirst, ihsecond]
  | block body => rw [toList_render_block, toList_render_block, List.head?_cons, List.head?_cons]

/-- Texts of a layout end in the same character for all widths. -/
theorem getLast?_render (layout : Layout) (width width' : Nat) :
    (layout.render width).toList.getLast? = (layout.render width').toList.getLast? := by
  induction layout with
  | words => rfl
  | append first second ihfirst ihsecond =>
    rw [render, render, String.toList_append, String.toList_append, List.getLast?_append,
      List.getLast?_append, ihfirst, ihsecond]
  | block body => simp [toList_render_block, List.getLast?_cons, List.getLast?_append]

/-- Whether a layout is empty does not depend on the width. -/
theorem isEmpty_render (layout : Layout) (width width' : Nat) :
    (layout.render width).isEmpty = (layout.render width').isEmpty := by
  rw [Bool.eq_iff_iff, String.isEmpty_iff, String.isEmpty_iff, ← String.toList_eq_nil_iff,
    ← String.toList_eq_nil_iff, ← List.head?_eq_none_iff, ← List.head?_eq_none_iff,
    layout.head?_render width width']

/-- Texts of a layout differ only in blanks at the start of lines. -/
theorem flushed_render (layout : Layout) (width width' : Nat) (start : Bool) :
    flushed start (layout.render width).toList = flushed start (layout.render width').toList := by
  induction layout generalizing start with
  | words => rfl
  | append first second ihfirst ihsecond =>
    have hstart : atStart start (first.render width).toList =
        atStart start (first.render width').toList := by
      rw [Text.atStart_eq, Text.atStart_eq, ihfirst]
    rw [render, render, String.toList_append, String.toList_append, Text.flushed_append,
      Text.flushed_append, ihfirst, hstart, ihsecond]
  | block body ih =>
    have hbody := Text.flushed_indent_congr (ih true) (body.getLast?_render width width')
      width width'
    have hblock (width : Nat) : flushed start ((block body).render width).toList =
        '\x7b' :: '\n' :: (flushed true (Text.indent (body.render width) width).toList
          ++ ['\n', '\x7d']) := by
      rw [toList_render_block, Text.flushed_cons (by simp), Text.flushed_feed, Text.flushed_append,
        Text.flushed_feed]
      rfl
    rw [hblock, hblock, hbody]

/-- Layouts one after another, with the separator between neighbours. -/
def join (separator : String) : List Layout → Layout
  | [] => words ""
  | [layout] => layout
  | layout :: next :: rest => layout ++ words separator ++ join separator (next :: rest)

/-- Layouts between braces. -/
def braces (layouts : List Layout) : Layout :=
  match layouts with
  | [] => words "\x7b \x7d"
  | _ => words "\x7b " ++ join ", " layouts ++ words " \x7d"

/-- The junction of layouts: none of nothing, a single one as it is, and otherwise all of them in
parentheses. -/
def junction (keyword : String) (layouts : List Layout) : Option Layout :=
  match layouts with
  | [] => none
  | [layout] => some layout
  | _ => some (words "(" ++ join (" " ++ keyword ++ " ") layouts ++ words ")")

/-- A layout of clauses, one below the other. -/
def stacked (head : Layout) (clauses : List Layout) : Layout := join "\n" (head :: clauses)

/-- A subquery with what it imports. -/
def importing (names : List Layout) (body : Layout) : Layout :=
  match names with
  | [] => body
  | _ => words "WITH " ++ join ", " names ++ words "\n" ++ body

/-- A head with a body between braces. -/
def headed (head : String) (body : Layout) : Layout := words (head ++ " ") ++ block body

/-- The layout of a negated predicate. -/
def negated (p : Predicate) (layout : Layout) : Layout :=
  if p.isGrouped (layout.render 0) then words "NOT " ++ layout
  else words "NOT (" ++ layout ++ words ")"

/-- The layout of a fragment in which nothing is indented. -/
def ofFragment (fragment : Fragment) : Layout := words fragment.text

end Layout

section Trees

variable (naming : Naming)

open Layout (words join ofFragment)

mutual
/-- The layout of an expression that has `first` pages before it. -/
def Expr.layout (first : Nat) : Expr → Layout
  | .var v => ofFragment (.ofVariable naming v)
  | .property v path =>
    ofFragment (.ofVariable naming v)
      ++ words (String.join (path.map fun key => "." ++ Identifier.escape key))
  | .param p => ofFragment (.ofParam naming p)
  | .literal value => words (Literal.write value)
  | .apply function arguments =>
    words (function ++ "(") ++ join ", " (Expr.layoutAll first arguments) ++ words ")"
  | .list items => words "[" ++ join ", " (Expr.layoutAll first items) ++ words "]"
  | .map entries => .braces (Expr.layoutEntries first entries)
  | .project v entries =>
    ofFragment (.ofVariable naming v) ++ words " " ++ .braces (MapEntry.layoutAll first entries)
  | .comprehend pattern filter result =>
    let condition := Predicate.layoutOptional first filter
    let result := result.layout (first + pages (Predicate.eventsOptional filter))
    match condition with
    | some condition =>
      words "[" ++ ofFragment (pattern.print naming) ++ words " WHERE " ++ condition
        ++ words " | " ++ result ++ words "]"
    | none => words "[" ++ ofFragment (pattern.print naming) ++ words " | " ++ result ++ words "]"
termination_by structural e => e

/-- The layouts of expressions. -/
def Expr.layoutAll (first : Nat) : List Expr → List Layout
  | [] => []
  | e :: rest => e.layout first :: Expr.layoutAll (first + pages e.events) rest
termination_by structural es => es

/-- The layouts of the entries of a map. -/
def Expr.layoutEntries (first : Nat) : List (String × Expr) → List Layout
  | [] => []
  | (key, e) :: rest =>
    (words (Identifier.escape key ++ ": ") ++ e.layout first)
      :: Expr.layoutEntries (first + pages e.events) rest
termination_by structural es => es

/-- The layouts of the entries of a map made from a variable. -/
def MapEntry.layoutAll (first : Nat) : List MapEntry → List Layout
  | [] => []
  | .stored key :: rest => words ("." ++ Identifier.escape key) :: MapEntry.layoutAll first rest
  | .computed key e :: rest =>
    (words (Identifier.escape key ++ ": ") ++ e.layout first)
      :: MapEntry.layoutAll (first + pages e.events) rest
termination_by structural es => es

/-- The layout of a predicate, if there is something to say. -/
def Predicate.layout (first : Nat) : Predicate → Option Layout
  | .compare comparison left right =>
    let before := left.layout first ++ words " " ++ words comparison.symbol
    if comparison.isUnary then some before
    else some (before ++ Expr.layoutOptional (first + pages left.events) right)
  | .all parts => Layout.junction "AND" (Predicate.layoutAll first parts)
  | .any parts => Layout.junction "OR" (Predicate.layoutAll first parts)
  | .not part => (part.layout first).map (Layout.negated part)
  | .exist body => some (.headed "EXISTS" (body.layout first))
  | .single v list filter =>
    let condition := Predicate.layoutOptional (first + pages list.events) filter
    some (words "single(" ++ ofFragment (.ofVariable naming v) ++ words " IN " ++ list.layout first
      ++ words " WHERE " ++ condition.getD (words "true") ++ words ")")
termination_by structural p => p

/-- The layout of the right side of a comparison, with the blank before it. -/
def Expr.layoutOptional (first : Nat) : Option Expr → Layout
  | none => words ""
  | some e => words " " ++ e.layout first
termination_by structural e => e

/-- The layout of a predicate that may be missing. -/
def Predicate.layoutOptional (first : Nat) : Option Predicate → Option Layout
  | none => none
  | some p => p.layout first
termination_by structural p => p

/-- The layouts of the predicates that have something to say. -/
def Predicate.layoutAll (first : Nat) : List Predicate → List Layout
  | [] => []
  | p :: rest => (p.layout first).toList ++ Predicate.layoutAll (first + pages p.events) rest
termination_by structural ps => ps

/-- The layouts of the items of a projection. -/
def Item.layoutAll (clause : ReadingClause) (first : Nat) : List Item → List Layout
  | [] => []
  | item :: rest =>
    item.layout first :: Item.layoutAll clause (first + pages (item.events clause)) rest
termination_by structural items => items

/-- The layout of an item of a projection. -/
def Item.layout (first : Nat) : Item → Layout
  | .plain e => e.layout first ++ ofFragment (Item.printAlias naming (.plain e))
  | .aliased e newName =>
    e.layout first ++ ofFragment (Item.printAlias naming (.aliased e newName))
  | .named e newName => e.layout first ++ ofFragment (Item.printAlias naming (.named e newName))
termination_by structural item => item

/-- The layouts of the keys of a sort. -/
def Statement.layoutKeys (first : Nat) : List (Expr × SortDirection) → List Layout
  | [] => []
  | (e, direction) :: rest =>
    (e.layout first ++ words " " ++ words direction.keyword)
      :: Statement.layoutKeys (first + pages e.events) rest
termination_by structural keys => keys

/-- The layout of a statement. -/
def Statement.layout (first : Nat) : Statement → Layout
  | .matching optional pattern clauses =>
    .stacked
      (words (if optional then "OPTIONAL MATCH " else "MATCH ") ++
        ofFragment (pattern.print naming))
      (Statement.layoutAll first clauses)
  | .filtering parts =>
    ((Layout.junction "AND" (Predicate.layoutAll first parts)).map (words "WHERE " ++ ·)).getD
      (words "")
  | .returning distinct items =>
    words (withDistinct "RETURN" distinct ++ " ")
      ++ join ", " (Item.layoutAll .returning first items)
  | .calling body imports _ clauses =>
    .stacked
      (.headed "CALL"
        (.importing (imports.map fun v => ofFragment (.ofVariable naming v)) (body.layout first)))
      (Statement.layoutAll (first + pages body.events) clauses)
  | .passing distinct items clauses =>
    let head := words (withDistinct "WITH" distinct ++ " ")
      ++ join ", " (Item.layoutAll .passing first items)
    .stacked head (Statement.layoutAll (first + pages (Item.eventsAll .passing items)) clauses)
  | .passingAll distinct clauses =>
    .stacked (words (withDistinct "WITH" distinct ++ " *")) (Statement.layoutAll first clauses)
  | .ordering keys =>
    let layouts := Statement.layoutKeys first keys
    if layouts.isEmpty then words "" else words "ORDER BY " ++ join ", " layouts
  | .skipping count => words "SKIP " ++ ofFragment (.ofPage naming first count)
  | .limiting count => words "LIMIT " ++ ofFragment (.ofPage naming first count)
termination_by structural s => s

/-- The layouts of clauses, without those that have nothing to say. -/
def Statement.layoutAll (first : Nat) : List Statement → List Layout
  | [] => []
  | s :: rest =>
    let layout := s.layout first
    let others := Statement.layoutAll (first + pages s.events) rest
    if (layout.render 0).isEmpty then others else layout :: others
termination_by structural ss => ss
end

end Trees

namespace Fragment

/-- A fragment that is printed with some width has a layout. The layout is closed if the names in
the fragment are contained. -/
structure LaidOut (width : Nat) (naming : Naming) (fragment : Fragment) (layout : Layout) :
    Prop where
  text : fragment.text = layout.render width
  closed : (∀ handle ∈ fragment.handles, Text.Contained (naming.name handle)) → layout.Closed

variable {width : Nat} {naming : Naming} {fragment first second body : Fragment}
  {layout firstLayout secondLayout bodyLayout : Layout} {parts : List Fragment}
  {layouts : List Layout}

/-- Words are laid out as they are, if their quotations are closed. -/
theorem laidOut_words {text : String} (h : endsQuoted false text.toList = false) :
    (words text).LaidOut width naming (.words text) where
  text := rfl
  closed _ := h

/-- A contained fragment in which nothing is indented is laid out as its text. -/
theorem laidOut_ofFragment (h : fragment.Contained naming) :
    fragment.LaidOut width naming (.ofFragment fragment) where
  text := rfl
  closed hnames := (h hnames).closed

/-- The name of a variable is a piece of one line. -/
theorem laidOut_ofVariable (v : Variable) :
    (ofVariable naming v).LaidOut width naming (.ofFragment (.ofVariable naming v)) :=
  laidOut_ofFragment (contained_ofVariable v)

/-- Fragments in a row are laid out one after the other. -/
theorem LaidOut.append (hfirst : first.LaidOut width naming firstLayout)
    (hsecond : second.LaidOut width naming secondLayout) :
    (first ++ second).LaidOut width naming (firstLayout ++ secondLayout) where
  text := by rw [text_append, Layout.render_append, hfirst.text, hsecond.text]
  closed hnames := by
    rw [handles_append, List.forall_mem_append] at hnames
    exact ⟨hfirst.closed hnames.1, hsecond.closed hnames.2⟩

/-- Only the text and the names of a fragment matter. -/
theorem LaidOut.of_eq (h : first.LaidOut width naming layout) (htext : second.text = first.text)
    (hhandles : second.handles = first.handles) : second.LaidOut width naming layout where
  text := htext.trans h.text
  closed hnames := by
    rw [hhandles] at hnames
    exact h.closed hnames

/-- Fragments that are laid out with a separator between them. -/
theorem laidOut_join {separator : String} (hseparator : endsQuoted false separator.toList = false)
    (h : List.Forall₂ (LaidOut width naming) parts layouts) :
    (assemble (Text.join separator) parts).LaidOut width naming (.join separator layouts) := by
  induction h with
  | nil => exact laidOut_words rfl
  | @cons part layout rest others hpart hrest ih =>
    cases hrest with
    | nil => exact hpart.of_eq rfl (by simp [assemble])
    | cons hnext hmore =>
      exact ((hpart.append (laidOut_words hseparator)).append ih).of_eq rfl (by simp)

/-- Fragments in braces are laid out in braces. -/
theorem laidOut_braces (h : List.Forall₂ (LaidOut width naming) parts layouts) :
    (assemble braces parts).LaidOut width naming (.braces layouts) := by
  have hjoin : (assemble (Text.join ", ") parts).LaidOut width naming (.join ", " layouts) :=
    laidOut_join (by decide) h
  have hopen : (words "\x7b ").LaidOut width naming (.words "\x7b ") := laidOut_words (by decide)
  have hclose : (words " \x7d").LaidOut width naming (.words " \x7d") := laidOut_words (by decide)
  cases h with
  | nil => exact laidOut_words (show endsQuoted false "\x7b \x7d".toList = false by decide)
  | cons => exact ((hopen.append hjoin).append hclose).of_eq rfl (by simp)

/-- A junction is laid out as a junction, if there is any. -/
theorem laidOut_junction {keyword : String}
    (hkeyword : endsQuoted false (" " ++ keyword ++ " ").toList = false)
    (h : List.Forall₂ (LaidOut width naming) parts layouts) :
    Option.Rel (LaidOut width naming) (junction keyword parts)
      (Layout.junction keyword layouts) := by
  have hjoin := laidOut_join hkeyword h
  have hopen : (words "(").LaidOut width naming (.words "(") := laidOut_words (by decide)
  have hclose : (words ")").LaidOut width naming (.words ")") := laidOut_words (by decide)
  cases h with
  | nil => exact .none
  | cons hpart hrest =>
    cases hrest with
    | nil => exact .some hpart
    | cons => exact .some ((hopen.append hjoin).append hclose)

/-- Stacked fragments are laid out one below the other. -/
theorem laidOut_stacked {head : Fragment} (hhead : head.LaidOut width naming layout)
    (h : List.Forall₂ (LaidOut width naming) parts layouts) :
    (stacked head parts).LaidOut width naming (.stacked layout layouts) :=
  laidOut_join (by decide) (.cons hhead h)

/-- A subquery is laid out with what it imports. -/
theorem laidOut_importing (h : List.Forall₂ (LaidOut width naming) parts layouts)
    (hbody : body.LaidOut width naming bodyLayout) :
    (importing parts body).LaidOut width naming (.importing layouts bodyLayout) := by
  have hjoin : (assemble (Text.join ", ") parts).LaidOut width naming (.join ", " layouts) :=
    laidOut_join (by decide) h
  have hwith : (words "WITH ").LaidOut width naming (.words "WITH ") := laidOut_words (by decide)
  have hfeed : (words "\n").LaidOut width naming (.words "\n") := laidOut_words (by decide)
  cases h with
  | nil => exact hbody
  | cons => exact ((hwith.append hjoin).append hfeed).append hbody

/-- The body of a block is indented with the width that it is printed with. -/
theorem laidOut_block {head : String} (hhead : endsQuoted false (head ++ " ").toList = false)
    (h : body.LaidOut width naming bodyLayout) :
    (block width head body).LaidOut width naming (.headed head bodyLayout) where
  text := by
    have hopen : " \x7b\n" = " " ++ "\x7b\n" := rfl
    rw [block, h.text, Layout.headed, Layout.render_append, Layout.render_words, Layout.render,
      hopen]
    simp only [String.append_assoc]
  closed hnames := ⟨hhead, h.closed hnames⟩

/-- A negation is laid out with parentheses for all widths, or for none. -/
theorem laidOut_negated (p : Predicate) (h : fragment.LaidOut width naming layout) :
    (⟨negated p fragment.text, fragment.handles⟩ : Fragment).LaidOut width naming
      (.negated p layout) := by
  have hgrouped : p.isGrouped fragment.text = p.isGrouped (layout.render 0) := by
    rw [h.text]
    cases p <;> simp [Predicate.isGrouped, layout.head?_render width 0]
  have hnot : (words "NOT ").LaidOut width naming (.words "NOT ") := laidOut_words (by decide)
  have hopen : (words "NOT (").LaidOut width naming (.words "NOT (") := laidOut_words (by decide)
  have hclose : (words ")").LaidOut width naming (.words ")") := laidOut_words (by decide)
  unfold negated Layout.negated
  rw [hgrouped]
  split
  · exact (hnot.append h).of_eq rfl (by simp)
  · exact ((hopen.append h).append hclose).of_eq rfl (by simp)

end Fragment

open Fragment (LaidOut laidOut_words laidOut_ofFragment laidOut_ofVariable laidOut_join
  laidOut_braces laidOut_junction laidOut_stacked contained_ofParam contained_ofPage)

section LaidOutTrees

variable (width : Nat) (naming : Naming)

mutual
/-- A harmless expression is printed with its layout. -/
theorem Expr.laidOut_print (first : Nat) (e : Expr) (h : e.Harmless) :
    (e.print width naming first).LaidOut width naming (e.layout naming first) := by
  cases e with
  | var v => exact laidOut_ofVariable v
  | property v path =>
    have hpath : Text.Contained (String.join (path.map fun key => "." ++ Identifier.escape key)) :=
      .concat (List.forall_mem_map.mpr fun key _ =>
        .append (by decide) (Text.contained_escape key))
    exact (laidOut_ofVariable v).append (laidOut_words hpath.closed)
  | param p => exact laidOut_ofFragment (contained_ofParam p)
  | literal value => exact laidOut_words (Text.Leads.closed h)
  | apply function arguments =>
    have hopen : Text.Leads (function ++ "(") [] [')'] := Text.Leads.append h.1 (by decide)
    have harguments := Expr.laidOut_printAll first arguments h.2
    exact ((laidOut_words hopen.closed).append (laidOut_join (by decide) harguments)).append
      (laidOut_words (by decide))
  | list items =>
    have hitems := Expr.laidOut_printAll first items h
    exact ((laidOut_words (by decide)).append (laidOut_join (by decide) hitems)).append
      (laidOut_words (by decide))
  | map entries => exact laidOut_braces (Expr.laidOut_printEntries first entries h)
  | project v entries =>
    have hbraces := laidOut_braces (MapEntry.laidOut_printAll first entries h)
    exact ((laidOut_ofVariable v).append (laidOut_words (by decide))).append hbraces
  | comprehend pattern filter result =>
    have hfilter := Predicate.laidOut_printOptional first filter h.1
    have hresult := result.laidOut_print (first + pages (Predicate.eventsOptional filter)) h.2
    have hpattern : (pattern.print naming).LaidOut width naming
        (.ofFragment (pattern.print naming)) := laidOut_ofFragment (pattern.contained_print naming)
    have hopen : (Fragment.words "[").LaidOut width naming (.words "[") :=
      laidOut_words (by decide)
    have hbar : (Fragment.words " | ").LaidOut width naming (.words " | ") :=
      laidOut_words (by decide)
    have hclose : (Fragment.words "]").LaidOut width naming (.words "]") :=
      laidOut_words (by decide)
    rw [Expr.print, Expr.layout]
    generalize Predicate.printOptional width naming first filter = printed,
      Predicate.layoutOptional naming first filter = layout at hfilter ⊢
    cases hfilter with
    | none => exact (((hopen.append hpattern).append hbar).append hresult).append hclose
    | some hcondition =>
      have hwhere : (Fragment.words " WHERE ").LaidOut width naming (.words " WHERE ") :=
        laidOut_words (by decide)
      exact (((((hopen.append hpattern).append hwhere).append hcondition).append hbar).append
        hresult).append hclose
termination_by structural e

/-- Harmless expressions are laid out one by one. -/
theorem Expr.laidOut_printAll (first : Nat) (es : List Expr) (h : Expr.AllHarmless es) :
    List.Forall₂ (LaidOut width naming) (Expr.printAll width naming first es)
      (Expr.layoutAll naming first es) := by
  cases es with
  | nil => exact .nil
  | cons e rest =>
    have hfirst := e.laidOut_print first h.1
    have hrest := Expr.laidOut_printAll (first + pages e.events) rest h.2
    exact .cons hfirst hrest
termination_by structural es

/-- Harmless entries of a map are laid out one by one. -/
theorem Expr.laidOut_printEntries (first : Nat) (es : List (String × Expr))
    (h : Expr.EntriesHarmless es) :
    List.Forall₂ (LaidOut width naming)
      (Expr.printEntries width naming first es) (Expr.layoutEntries naming first es) := by
  match es with
  | [] => exact .nil
  | (key, e) :: rest =>
    have hkey := (Text.contained_keyed key).closed
    have hrest := Expr.laidOut_printEntries (first + pages e.events) rest h.2
    exact .cons ((laidOut_words hkey).append (e.laidOut_print first h.1)) hrest
termination_by structural es

/-- Harmless entries of a projection are laid out one by one. -/
theorem MapEntry.laidOut_printAll (first : Nat) (es : List MapEntry) (h : MapEntry.AllHarmless es) :
    List.Forall₂ (LaidOut width naming)
      (MapEntry.printAll width naming first es) (MapEntry.layoutAll naming first es) := by
  match es with
  | [] => exact .nil
  | .stored key :: rest =>
    have hkey : Text.Contained ("." ++ Identifier.escape key) :=
      .append (by decide) (Text.contained_escape key)
    exact .cons (laidOut_words hkey.closed) (MapEntry.laidOut_printAll first rest h)
  | .computed key e :: rest =>
    have hkey := (Text.contained_keyed key).closed
    have hrest := MapEntry.laidOut_printAll (first + pages e.events) rest h.2
    exact .cons ((laidOut_words hkey).append (e.laidOut_print first h.1)) hrest
termination_by structural es

/-- A harmless predicate is printed with its layout, if it is printed. -/
theorem Predicate.laidOut_print (first : Nat) (p : Predicate) (h : p.Harmless) :
    Option.Rel (LaidOut width naming) (p.print width naming first) (p.layout naming first) := by
  cases p with
  | compare comparison left right =>
    have hsymbol : Text.Contained comparison.symbol := by cases comparison <;> decide
    have hleft : (left.print width naming first ++ Fragment.words " "
        ++ Fragment.words comparison.symbol).LaidOut width naming
          (left.layout naming first ++ .words " " ++ .words comparison.symbol) :=
      ((left.laidOut_print first h.1).append (laidOut_words (by decide))).append
        (laidOut_words hsymbol.closed)
    rw [Predicate.print, Predicate.layout]
    split
    · exact .some hleft
    · exact .some (hleft.append (Expr.laidOut_printOptional _ right h.2))
  | all parts => exact laidOut_junction (by decide) (Predicate.laidOut_printAll first parts h)
  | any parts => exact laidOut_junction (by decide) (Predicate.laidOut_printAll first parts h)
  | not part =>
    have hpart := part.laidOut_print first h
    rw [Predicate.print, Predicate.layout]
    generalize part.print width naming first = printed, part.layout naming first = layout
      at hpart ⊢
    cases hpart with
    | none => exact .none
    | some hpart => exact .some (Fragment.laidOut_negated part hpart)
  | exist body => exact .some (Fragment.laidOut_block (by decide) (body.laidOut_print first h))
  | single v list filter =>
    have hfilter := Predicate.laidOut_printOptional (first + pages list.events) filter h.2
    have hcondition : ((Predicate.printOptional width naming (first + pages list.events)
        filter).getD (Fragment.words "true")).LaidOut width naming
          ((Predicate.layoutOptional naming (first + pages list.events) filter).getD
            (.words "true")) := by
      generalize Predicate.printOptional width naming _ filter = printed,
        Predicate.layoutOptional naming _ filter = layout at hfilter ⊢
      cases hfilter with
      | none => exact laidOut_words (by decide)
      | some hcondition => exact hcondition
    have hopen : (Fragment.words "single(").LaidOut width naming (.words "single(") :=
      laidOut_words (by decide)
    have hin : (Fragment.words " IN ").LaidOut width naming (.words " IN ") :=
      laidOut_words (by decide)
    have hlist := list.laidOut_print first h.1
    have hwhere : (Fragment.words " WHERE ").LaidOut width naming (.words " WHERE ") :=
      laidOut_words (by decide)
    have hnamed := hopen.append (laidOut_ofVariable v)
    exact .some (((((hnamed.append hin).append hlist).append hwhere).append hcondition).append
      (laidOut_words (by decide)))
termination_by structural p

/-- A harmless expression is laid out, if there is one. -/
theorem Expr.laidOut_printOptional (first : Nat) (e : Option Expr) (h : Expr.OptionalHarmless e) :
    (Expr.printOptional width naming first e).LaidOut width naming
      (Expr.layoutOptional naming first e) := by
  cases e with
  | none => exact laidOut_words (by decide)
  | some e => exact (laidOut_words (by decide)).append (e.laidOut_print first h)
termination_by structural e

/-- A harmless predicate is laid out, if there is one. -/
theorem Predicate.laidOut_printOptional (first : Nat) (p : Option Predicate)
    (h : Predicate.OptionalHarmless p) :
    Option.Rel (LaidOut width naming)
      (Predicate.printOptional width naming first p) (Predicate.layoutOptional naming first p) := by
  cases p with
  | none => exact .none
  | some p => exact p.laidOut_print first h
termination_by structural p

/-- Harmless predicates are laid out one by one. The same ones are left out for all widths. -/
theorem Predicate.laidOut_printAll (first : Nat) (ps : List Predicate)
    (h : Predicate.AllHarmless ps) :
    List.Forall₂ (LaidOut width naming)
      (Predicate.printAll width naming first ps) (Predicate.layoutAll naming first ps) := by
  cases ps with
  | nil => exact .nil
  | cons p rest =>
    have hp := p.laidOut_print first h.1
    have hrest := Predicate.laidOut_printAll (first + pages p.events) rest h.2
    rw [Predicate.printAll, Predicate.layoutAll]
    generalize p.print width naming first = printed, p.layout naming first = layout at hp ⊢
    cases hp with
    | none => exact hrest
    | some hp => exact .cons hp hrest
termination_by structural ps

/-- Harmless items are laid out one by one. -/
theorem Item.laidOut_printAll (clause : ReadingClause) (first : Nat) (items : List Item)
    (h : Item.AllHarmless items) :
    List.Forall₂ (LaidOut width naming) (Item.printAll width naming clause first items)
      (Item.layoutAll naming clause first items) := by
  cases items with
  | nil => exact .nil
  | cons item rest =>
    have hitem := item.laidOut_print first h.1
    have hrest := Item.laidOut_printAll clause (first + pages (item.events clause)) rest h.2
    exact .cons hitem hrest
termination_by structural items

/-- A harmless item is laid out. -/
theorem Item.laidOut_print (first : Nat) (item : Item) (h : item.Harmless) :
    (item.print width naming first).LaidOut width naming (item.layout naming first) := by
  cases item with
  | plain e =>
    have halias := Item.contained_printAlias naming (.plain e)
    exact (e.laidOut_print first h).append (laidOut_ofFragment halias)
  | aliased e newName =>
    have halias := Item.contained_printAlias naming (.aliased e newName)
    exact (e.laidOut_print first h).append (laidOut_ofFragment halias)
  | named e newName =>
    have halias := Item.contained_printAlias naming (.named e newName)
    exact (e.laidOut_print first h).append (laidOut_ofFragment halias)
termination_by structural item

/-- Harmless sort keys are laid out one by one. -/
theorem Statement.laidOut_printKeys (first : Nat) (keys : List (Expr × SortDirection))
    (h : Statement.KeysHarmless keys) :
    List.Forall₂ (LaidOut width naming)
      (Statement.printKeys width naming first keys) (Statement.layoutKeys naming first keys) := by
  match keys with
  | [] => exact .nil
  | (e, direction) :: rest =>
    have hdirection : Text.Contained direction.keyword := by cases direction <;> decide
    refine .cons ?_ (Statement.laidOut_printKeys _ rest h.2)
    exact ((e.laidOut_print first h.1).append (laidOut_words (by decide))).append
      (laidOut_words hdirection.closed)
termination_by structural keys

/-- A harmless statement is printed with its layout. -/
theorem Statement.laidOut_print (first : Nat) (s : Statement) (h : s.Harmless) :
    (s.print width naming first).LaidOut width naming (s.layout naming first) := by
  cases s with
  | matching optional pattern clauses =>
    have hkeyword : Text.Contained (if optional then "OPTIONAL MATCH " else "MATCH ") := by
      cases optional <;> decide
    have hpattern := pattern.contained_print naming
    have hclauses := Statement.laidOut_printAll first clauses h
    refine laidOut_stacked ?_ hclauses
    exact (laidOut_words hkeyword.closed).append (laidOut_ofFragment hpattern)
  | filtering parts =>
    -- The junction and its layout are missing together, whatever the width is.
    have hjunction : Option.Rel (LaidOut width naming)
        (Fragment.junction "AND" (Predicate.printAll width naming first parts))
        (Layout.junction "AND" (Predicate.layoutAll naming first parts)) :=
      laidOut_junction (by decide) (Predicate.laidOut_printAll first parts h)
    rw [Statement.print, Statement.layout]
    generalize Fragment.junction "AND" (Predicate.printAll width naming first parts) = printed,
      Layout.junction "AND" (Predicate.layoutAll naming first parts) = layout at hjunction ⊢
    cases hjunction with
    | none => exact laidOut_words (by decide)
    | some hpart => exact (laidOut_words (by decide)).append hpart
  | returning distinct items =>
    have hkeyword : Text.Contained (withDistinct "RETURN" distinct ++ " ") :=
      contained_withDistinct (by decide) distinct
    have hitems := Item.laidOut_printAll .returning first items h
    exact (laidOut_words hkeyword.closed).append (laidOut_join (by decide) hitems)
  | calling body imports base clauses =>
    have himports : List.Forall₂ (LaidOut width naming) (imports.map (Fragment.ofVariable naming))
        (imports.map fun v => .ofFragment (.ofVariable naming v)) := by
      rw [List.forall₂_map_left_iff, List.forall₂_map_right_iff]
      exact List.forall₂_same.mpr fun v _ => laidOut_ofVariable v
    have hbody := Fragment.laidOut_importing himports (body.laidOut_print first h.1)
    have hclauses := Statement.laidOut_printAll (first + pages body.events) clauses h.2
    exact laidOut_stacked (Fragment.laidOut_block (by decide) hbody) hclauses
  | passing distinct items clauses =>
    have hkeyword : Text.Contained (withDistinct "WITH" distinct ++ " ") :=
      contained_withDistinct (by decide) distinct
    have hitems := Item.laidOut_printAll .passing first items h.1
    have hclauses := Statement.laidOut_printAll
      (first + pages (Item.eventsAll .passing items)) clauses h.2
    refine laidOut_stacked ?_ hclauses
    exact (laidOut_words hkeyword.closed).append (laidOut_join (by decide) hitems)
  | passingAll distinct clauses =>
    have hkeyword : Text.Contained (withDistinct "WITH" distinct ++ " *") := by
      cases distinct <;> decide
    exact laidOut_stacked (laidOut_words hkeyword.closed)
      (Statement.laidOut_printAll first clauses h)
  | ordering keys =>
    have hkeys := Statement.laidOut_printKeys first keys h
    have hjoin := laidOut_join (show endsQuoted false ", ".toList = false by decide) hkeys
    rw [Statement.print, Statement.layout]
    generalize Statement.printKeys width naming first keys = printed,
      Statement.layoutKeys naming first keys = layouts at hkeys hjoin ⊢
    cases hkeys with
    | nil => exact laidOut_words (by decide)
    | cons => exact (laidOut_words (by decide)).append hjoin
  | skipping count =>
    exact (laidOut_words (by decide)).append (laidOut_ofFragment (contained_ofPage first count))
  | limiting count =>
    exact (laidOut_words (by decide)).append (laidOut_ofFragment (contained_ofPage first count))
termination_by structural s

/-- Harmless clauses are laid out one by one. The same ones are left out for all widths. -/
theorem Statement.laidOut_printAll (first : Nat) (ss : List Statement)
    (h : Statement.AllHarmless ss) :
    List.Forall₂ (LaidOut width naming)
      (Statement.printAll width naming first ss) (Statement.layoutAll naming first ss) := by
  cases ss with
  | nil => exact .nil
  | cons s rest =>
    have hs := s.laidOut_print first h.1
    have hrest := Statement.laidOut_printAll (first + pages s.events) rest h.2
    have hempty : (s.print width naming first).text.isEmpty =
        ((s.layout naming first).render 0).isEmpty := by
      rw [hs.text, Layout.isEmpty_render _ width 0]
    rw [Statement.printAll, Statement.layoutAll, hempty]
    split
    · exact hrest
    · exact .cons hs hrest
termination_by structural ss
end

end LaidOutTrees

end GraphRead
