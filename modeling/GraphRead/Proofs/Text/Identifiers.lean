import GraphRead.Text.Identifier
import Mathlib.Logic.Function.Basic

/-!
# Reading identifiers back

An identifier in a query is either a word, the longest run of word characters
from a letter or an underscore on, or a quotation between backticks in which two
backticks stand for one. Every name is read back from the text that a query
writes for it, whatever follows, as long as what follows neither continues a
word nor a quotation. So two names are never written alike.
-/

namespace GraphRead

/-- A run of characters ends where the first one stands that does not belong to it. -/
theorem Text.run_append {belongs : Char → Bool} {run rest : List Char}
    (hrun : ∀ c ∈ run, belongs c = true) (hrest : ∀ c, rest.head? = some c → belongs c = false) :
    (run ++ rest).takeWhile belongs = run ∧ (run ++ rest).dropWhile belongs = rest := by
  rw [List.takeWhile_append_of_pos hrun, List.dropWhile_append_of_pos hrun]
  cases rest with
  | nil => exact ⟨List.append_nil run, rfl⟩
  | cons c rest =>
    have hc := hrest c rfl
    rw [List.takeWhile_cons_of_neg (by simp [hc]), List.dropWhile_cons_of_neg (by simp [hc])]
    exact ⟨List.append_nil run, rfl⟩

namespace Identifier

/-- The characters that open a word. -/
def opensWord (c : Char) : Bool := ('A' ≤ c ∧ c ≤ 'Z') ∨ ('a' ≤ c ∧ c ≤ 'z') ∨ c = '_'

/-- The characters that a word goes on with. -/
def continuesWord (c : Char) : Bool := opensWord c ∨ ('0' ≤ c ∧ c ≤ '9')

/-- What a quotation holds, and what follows it. Reading starts after the opening backtick. A
doubled backtick stands for one, a single one closes the quotation. -/
def lexQuotation : List Char → Option (List Char × List Char)
  | '\x60' :: '\x60' :: rest => (lexQuotation rest).map fun read => ('\x60' :: read.1, read.2)
  | '\x60' :: rest => some ([], rest)
  | c :: rest => (lexQuotation rest).map fun read => (c :: read.1, read.2)
  | [] => none

/-- The identifier at the start of the characters, and what follows it. -/
def lexChars : List Char → Option (List Char × List Char)
  | [] => none
  | c :: rest =>
    if c = '\x60' then lexQuotation rest
    else if opensWord c then some (c :: rest.takeWhile continuesWord, rest.dropWhile continuesWord)
    else none

/-- The identifier at the start of a text, and the text that follows it. -/
def lex (text : String) : Option (String × String) :=
  (lexChars text.toList).map fun read => (String.ofList read.1, String.ofList read.2)

/-- A text that goes on neither with a word nor with a quotation. -/
def Ends (rest : String) : Prop :=
  ∀ c, rest.toList.head? = some c → c ≠ '\x60' ∧ continuesWord c = false

/-! ## Words -/

/-- A plain name begins as a word does. -/
theorem opensWord_of_isStart {c : Char} (h : isStart c = true) : opensWord c = true := by
  apply decide_eq_true
  rcases Bool.or_eq_true_iff.mp h with hletter | hbar
  · rcases Bool.or_eq_true_iff.mp hletter with hupper | hlower
    · exact .inl (of_decide_eq_true hupper)
    · obtain ⟨hlow, hhigh⟩ := Bool.and_eq_true_iff.mp hlower
      exact .inr (.inl ⟨of_decide_eq_true hlow, of_decide_eq_true hhigh⟩)
  · exact .inr (.inr (beq_iff_eq.mp hbar))

/-- A plain name goes on as a word does. -/
theorem continuesWord_of_isPart {c : Char} (h : isPart c = true) : continuesWord c = true := by
  apply decide_eq_true
  rcases Bool.or_eq_true_iff.mp h with halphanum | hbar
  · rcases Bool.or_eq_true_iff.mp halphanum with hletter | hdigit
    · exact .inl (opensWord_of_isStart (Bool.or_eq_true_iff.mpr (.inl hletter)))
    · obtain ⟨hlow, hhigh⟩ := Bool.and_eq_true_iff.mp hdigit
      exact .inr ⟨of_decide_eq_true hlow, of_decide_eq_true hhigh⟩
  · exact .inl (opensWord_of_isStart (Bool.or_eq_true_iff.mpr (.inr hbar)))

/-- A plain name is read as a word. -/
theorem lexChars_of_isPlain {name rest : List Char} (h : isPlainChars name = true)
    (hrest : ∀ c, rest.head? = some c → continuesWord c = false) :
    lexChars (name ++ rest) = some (name, rest) := by
  cases name with
  | nil => cases h
  | cons c name =>
    obtain ⟨hstart, hparts⟩ := Bool.and_eq_true_iff.mp h
    have hquote : c ≠ '\x60' := by
      rintro rfl
      cases hstart
    have hname : ∀ d ∈ name, continuesWord d = true := by
      intro d hd
      exact continuesWord_of_isPart (List.all_eq_true.mp hparts d hd)
    obtain ⟨htaken, hleft⟩ := Text.run_append hname hrest
    rw [List.cons_append, lexChars, if_neg hquote, if_pos (opensWord_of_isStart hstart), htaken,
      hleft]

/-! ## Quotations -/

/-- What is quoted is read back from its text with the backticks doubled. -/
theorem lexQuotation_doubled (name : List Char) {rest : List Char}
    (h : rest.head? ≠ some '\x60') :
    lexQuotation (doubled name ++ '\x60' :: rest) = some (name, rest) := by
  induction name with
  | nil =>
    change lexQuotation ('\x60' :: rest) = some ([], rest)
    rw [lexQuotation]
    rintro more rfl
    exact h rfl
  | cons c name ih =>
    -- A backtick of the name is doubled, so that it does not close the quotation.
    by_cases hc : c = '\x60'
    · subst hc
      change lexQuotation ('\x60' :: '\x60' :: (doubled name ++ '\x60' :: rest)) = _
      rw [lexQuotation, ih]
      rfl
    · have hdoubled : doubled (c :: name) = c :: doubled name := by simp [doubled, hc]
      rw [hdoubled, List.cons_append, lexQuotation, ih]
      · rfl
      · rintro more rfl
        exact fun _ => hc rfl
      · exact hc

/-! ## Names -/

/-- A name is read back from what a query writes for it, and what follows is left. -/
theorem lex_escape_append (name : String) {rest : String} (h : Ends rest) :
    lex (escape name ++ rest) = some (name, rest) := by
  have hchars : lexChars (escape name ++ rest).toList = some (name.toList, rest.toList) := by
    rw [String.toList_append]
    by_cases hplain : isPlain name = true
    · rw [escape, if_pos hplain]
      exact lexChars_of_isPlain hplain fun c hc => (h c hc).2
    · rw [escape, if_neg hplain]
      have hquotation := lexQuotation_doubled name.toList fun hc => (h _ hc).1 rfl
      simpa [lexChars] using hquotation
  rw [lex, hchars, Option.map_some, String.ofList_toList, String.ofList_toList]

/-- Every name is read back from what a query writes for it, as the one token in front of any
text that does not go on with a word or a quotation. So different names are written differently. -/
theorem escape_reads_back :
    (∀ name rest : String, Ends rest → lex (escape name ++ rest) = some (name, rest)) ∧
      Function.Injective escape := by
  refine ⟨fun name rest => lex_escape_append name, ?_⟩
  intro first second h
  have hends : Ends "" := fun c hc => by cases hc
  have hfirst := lex_escape_append first hends
  rw [h, lex_escape_append second hends] at hfirst
  exact (congrArg Prod.fst (Option.some.inj hfirst)).symm

/-- A name with backticks and a line feed in it is read back before a property. -/
theorem ticked_reads_back :
    Ends ").x" ∧ lex (escape "\x60a\x60\n" ++ ").x") = some ("\x60a\x60\n", ").x") := by
  have hends : Ends ").x" := by
    intro c hc
    obtain rfl : ')' = c := Option.some.inj hc
    decide
  exact ⟨hends, escape_reads_back.1 _ _ hends⟩

end Identifier

end GraphRead
