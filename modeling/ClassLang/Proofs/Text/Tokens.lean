/-
Texts as sequences of words and parentheses.

A word ends in front of a parenthesis and of whatever separates words, and only there.  So a text
may be taken apart at every character of these kinds: what stands in front of it and what stands
behind it have their tokens independently of each other.
-/
import ClassLang.Code.Text

namespace ClassLang
namespace Text

inductive Token where
  | opening
  | closing
  | word (text : String)
deriving Repr, DecidableEq

/-- The characters that stand between words.  A blank and the end of a line are among them. -/
structure Separators where
  isBlank : Char → Bool
  space : isBlank ' ' = true
  lineEnd : isBlank '\n' = true

/-- The word that has been read, if there is one. -/
def ended : List Char → List Token
  | [] => []
  | word => [.word (String.ofList word)]

namespace Separators

variable (seps : Separators)

/-- What a character that ends words leaves itself; absent for the others. -/
def mark? (c : Char) : Option (List Token) :=
  if c = '(' then some [.opening]
  else if c = ')' then some [.closing]
  else if seps.isBlank c then some []
  else none

/-- The tokens of a text of which the characters of `word` have been read. -/
def tokensFrom (word : List Char) : List Char → List Token
  | [] => ended word
  | c :: rest =>
    match seps.mark? c with
    | some marks => ended word ++ (marks ++ tokensFrom [] rest)
    | none => tokensFrom (word ++ [c]) rest

def tokens (text : String) : List Token := seps.tokensFrom [] text.toList

/-! ## Characters that end words -/

theorem mark?_opening : seps.mark? '(' = some [.opening] := rfl

theorem mark?_closing : seps.mark? ')' = some [.closing] := rfl

theorem mark?_of_isBlank {c : Char} (blank : seps.isBlank c = true) (left : c ≠ '(')
    (right : c ≠ ')') : seps.mark? c = some [] := by
  rw [mark?, if_neg left, if_neg right, if_pos blank]

theorem mark?_space : seps.mark? ' ' = some [] :=
  seps.mark?_of_isBlank seps.space (by decide) (by decide)

theorem mark?_lineEnd : seps.mark? '\n' = some [] :=
  seps.mark?_of_isBlank seps.lineEnd (by decide) (by decide)

/-! ## Taking a text apart -/

section Parts

variable {seps} {c : Char} {marks : List Token}

/-- A text may be taken apart at every character that ends words. -/
theorem tokensFrom_append_cons (ends : seps.mark? c = some marks) (word before rest : List Char) :
    seps.tokensFrom word (before ++ c :: rest) =
      seps.tokensFrom word before ++ (marks ++ seps.tokensFrom [] rest) := by
  induction before generalizing word with
  | nil => simp only [List.nil_append, tokensFrom, ends]
  | cons d before ih =>
    rw [List.cons_append, tokensFrom, tokensFrom]
    split
    · rw [ih, List.append_assoc, List.append_assoc]
    · exact ih _

theorem tokensFrom_cons (ends : seps.mark? c = some marks) (rest : List Char) :
    seps.tokensFrom [] (c :: rest) = marks ++ seps.tokensFrom [] rest :=
  tokensFrom_append_cons ends [] [] rest

/-- The text is empty or starts with a character that ends words. -/
def Begins (seps : Separators) (text : String) : Prop :=
  ∀ c ∈ text.toList.head?, ∃ marks, seps.mark? c = some marks

theorem begins_empty : seps.Begins "" := nofun

theorem begins_of_head {text : String} (head : text.toList.head? = some c)
    (ends : seps.mark? c = some marks) : seps.Begins text := by
  intro d mem
  rw [head] at mem
  cases mem
  exact ⟨marks, ends⟩

theorem tokens_append {text : String} (begins : seps.Begins text) (before : String) :
    seps.tokens (before ++ text) = seps.tokens before ++ seps.tokens text := by
  unfold tokens
  rw [String.toList_append]
  unfold Begins at begins
  cases h : text.toList with
  | nil => rw [List.append_nil, tokensFrom, ended, List.append_nil]
  | cons c rest =>
    rw [h] at begins
    obtain ⟨marks, ends⟩ := begins c rfl
    rw [tokensFrom_append_cons ends, tokensFrom_cons ends]

/-- A character that ends words may be taken off the front of a text. -/
theorem tokens_mark {first : String} (single : first.toList = [c])
    (ends : seps.mark? c = some marks) (rest : String) :
    seps.tokens (first ++ rest) = marks ++ seps.tokens rest := by
  rw [tokens, String.toList_append, single, List.singleton_append, tokensFrom_cons ends]
  rfl

end Parts

theorem tokens_empty : seps.tokens "" = [] := rfl

theorem tokens_opening (rest : String) :
    seps.tokens ("(" ++ rest) = .opening :: seps.tokens rest :=
  tokens_mark rfl seps.mark?_opening rest

theorem tokens_closing (rest : String) :
    seps.tokens (")" ++ rest) = .closing :: seps.tokens rest :=
  tokens_mark rfl seps.mark?_closing rest

theorem tokens_space (rest : String) : seps.tokens (" " ++ rest) = seps.tokens rest :=
  tokens_mark rfl seps.mark?_space rest

theorem tokens_lineEnd (rest : String) : seps.tokens ("\n" ++ rest) = seps.tokens rest :=
  tokens_mark rfl seps.mark?_lineEnd rest

/-! ## Lines -/

theorem tokens_spaces (count : Nat) (rest : String) :
    seps.tokens (String.ofList (List.replicate count ' ') ++ rest) = seps.tokens rest := by
  unfold tokens
  rw [String.toList_append, String.toList_ofList]
  induction count with
  | zero => rfl
  | succ count ih =>
    rw [List.replicate_succ, List.cons_append, tokensFrom_cons seps.mark?_space, ih]
    rfl

/-! ## Texts that end with a token -/

/-- The text has these tokens, whatever follows it. -/
def Gives (seps : Separators) (text : String) (tokens : List Token) : Prop :=
  ∀ rest, seps.tokens (text ++ rest) = tokens ++ seps.tokens rest

namespace Gives

variable {seps} {text text' : String} {tokens tokens' : List Token}

theorem eq (h : seps.Gives text tokens) : seps.tokens text = tokens := by
  have alone := h ""
  rwa [String.append_empty, tokens_empty, List.append_nil] at alone

theorem empty : seps.Gives "" [] := by
  intro rest
  rw [String.empty_append, List.nil_append]

theorem append (h : seps.Gives text tokens) (h' : seps.Gives text' tokens') :
    seps.Gives (text ++ text') (tokens ++ tokens') := by
  intro rest
  rw [String.append_assoc, h, h', List.append_assoc]

theorem join {α : Type} {text : α → String} {tokens : α → List Token} {l : List α}
    (each : ∀ a ∈ l, seps.Gives (text a) (tokens a)) :
    seps.Gives (String.join (l.map text)) (l.flatMap tokens) := by
  induction l with
  | nil => exact empty
  | cons a l ih =>
    obtain ⟨first, others⟩ := List.forall_mem_cons.1 each
    rw [List.map_cons, String.join_cons, List.flatMap_cons]
    exact first.append (ih others)

end Gives

theorem gives_closing (text : String) :
    seps.Gives (text ++ ")") (seps.tokens text ++ [.closing]) := by
  intro rest
  have begins : seps.Begins (")" ++ rest) := begins_of_head (by simp) seps.mark?_closing
  rw [String.append_assoc, tokens_append begins, tokens_closing, List.append_assoc,
    List.singleton_append]

/-- Nothing of a line is left but what stands on it. -/
theorem gives_line (level : Nat) (text : String) :
    seps.Gives (line level text) (seps.tokens text) := by
  intro rest
  have begins : seps.Begins ("\n" ++ rest) := begins_of_head (by simp) seps.mark?_lineEnd
  rw [line, String.append_assoc, String.append_assoc, tokens_spaces, tokens_append begins,
    tokens_lineEnd]

/-! ## Words -/

/-- Blanks and ends of lines, and nothing else. -/
def narrow : Separators where
  isBlank c := c = ' ' || c = '\n'
  space := rfl
  lineEnd := rfl

end Separators

/-- No blank, end of line or parenthesis breaks the text apart. -/
def Whole (text : String) : Prop := ∀ c ∈ text.toList, c ∉ [' ', '\n', '(', ')']

instance (text : String) : Decidable (Whole text) := List.decidableBAll _ _

theorem Whole.append {first second : String} (h : Whole first) (h' : Whole second) :
    Whole (first ++ second) := by
  unfold Whole
  rw [String.toList_append, List.forall_mem_append]
  exact ⟨h, h'⟩

namespace Separators

theorem mark?_narrow {c : Char} (whole : c ∉ [' ', '\n', '(', ')']) : narrow.mark? c = none := by
  simp only [List.mem_cons, List.not_mem_nil, or_false, not_or] at whole
  obtain ⟨space, lineEnd, left, right⟩ := whole
  simp [mark?, narrow, space, lineEnd, left, right]

theorem tokensFrom_whole {chars : List Char} (whole : ∀ c ∈ chars, c ∉ [' ', '\n', '(', ')'])
    (word : List Char) : narrow.tokensFrom word chars = ended (word ++ chars) := by
  induction chars generalizing word with
  | nil => rw [tokensFrom, List.append_nil]
  | cons c chars ih =>
    obtain ⟨first, others⟩ := List.forall_mem_cons.1 whole
    rw [tokensFrom, mark?_narrow first]
    show narrow.tokensFrom (word ++ [c]) chars = _
    rw [ih others, List.append_assoc, List.singleton_append]

theorem tokens_whole {text : String} (whole : Whole text) (ne : text ≠ "") :
    narrow.tokens text = [.word text] := by
  rw [tokens, tokensFrom_whole whole, List.nil_append]
  have chars : text.toList ≠ [] := mt String.toList_eq_nil_iff.1 ne
  cases h : text.toList with
  | nil => exact absurd h chars
  | cons c rest => rw [ended, ← h, String.ofList_toList]; exact List.cons_ne_nil c rest

end Separators
end Text
end ClassLang
