/-
The two texts of stack code.

On one line and spread over lines, code is written by recursions of its own.  Both open and close
the same groups in the same order, whatever the depth of its branches, and write the same words
between them.
-/
import ClassLang.Proofs.Text.Tokens

namespace ClassLang

open Text.Separators

namespace Instr

variable (seps : Text.Separators)

/-! ## On one line -/

theorem text_branch (yes : Code) (no : Option Code) :
    (branch yes no).text = "(if (then" ++ textAll yes ++ ")" ++ textElse no ++ ")" := rfl

theorem head?_text (i : Instr) : i.text.toList.head? = some '(' := by
  have extend {first : String} (h : first.toList.head? = some '(') (rest : String) :
      (first ++ rest).toList.head? = some '(' := by
    rw [String.toList_append, List.head?_append, h, Option.some_or]
  cases i with
  | branch yes no => exact extend (extend (extend (extend rfl _) _) _) _
  | _ => exact extend (extend rfl _) _

theorem begins_text (i : Instr) : seps.Begins i.text :=
  begins_of_head i.head?_text seps.mark?_opening

theorem begins_textAll (code : Code) : seps.Begins (textAll code) := by
  cases code with
  | nil => exact begins_empty
  | cons i rest => exact begins_of_head (by simp [textAll]) seps.mark?_space

theorem begins_textElse (no : Option Code) : seps.Begins (textElse no) := by
  cases no with
  | none => exact begins_empty
  | some no => exact begins_of_head (by simp [textElse]) seps.mark?_space

theorem begins_join (code : Code) : seps.Begins (String.join (code.map text)) := by
  cases code with
  | nil => exact begins_empty
  | cons i rest =>
    refine begins_of_head ?_ seps.mark?_opening
    rw [List.map_cons, String.join_cons, String.toList_append, List.head?_append, head?_text]
    rfl

theorem tokens_textAll_cons (i : Instr) (rest : Code) :
    seps.tokens (textAll (i :: rest)) = seps.tokens i.text ++ seps.tokens (textAll rest) := by
  rw [textAll, tokens_append (begins_textAll seps rest), tokens_space]

theorem tokens_textElse_some (no : Code) :
    seps.tokens (textElse (some no)) =
      seps.tokens "(else" ++ seps.tokens (textAll no) ++ [.closing] := by
  rw [textElse, (seps.gives_closing _).eq, tokens_append (begins_textAll seps no)]
  exact congrArg (· ++ _ ++ _) (tokens_space seps "(else")

theorem tokens_text_branch (yes : Code) (no : Option Code) :
    seps.tokens (branch yes no).text =
      seps.tokens "(if" ++ seps.tokens "(then" ++ seps.tokens (textAll yes) ++ [.closing] ++
        seps.tokens (textElse no) ++ [.closing] := by
  have opening : seps.tokens "(if (then" = seps.tokens "(if" ++ seps.tokens "(then" := by
    have begins : seps.Begins " (then" := begins_of_head rfl seps.mark?_space
    exact (tokens_append begins "(if").trans (congrArg (_ ++ ·) (tokens_space seps "(then"))
  rw [text_branch, (seps.gives_closing _).eq, tokens_append (begins_textElse seps no),
    (seps.gives_closing _).eq, tokens_append (begins_textAll seps yes), opening]

theorem tokens_textAll (code : Code) :
    seps.tokens (textAll code) = seps.tokens (String.join (code.map text)) := by
  induction code with
  | nil => rfl
  | cons i rest ih =>
    rw [tokens_textAll_cons, List.map_cons, String.join_cons,
      tokens_append (begins_join seps rest), ih]

/-! ## Spread over lines -/

mutual

theorem gives_lines (level : Nat) (i : Instr) :
    seps.Gives (lines level i) (seps.tokens i.text) := by
  cases i with
  | branch yes no =>
    rw [tokens_text_branch]
    exact ((seps.gives_line level "(if").append (seps.gives_line _ "(then")
      |>.append (gives_linesAll _ yes) |>.append (seps.gives_line _ ")")
      |>.append (gives_linesElse _ no) |>.append (seps.gives_line _ ")"))
  | _ => exact seps.gives_line level _
termination_by structural i

theorem gives_linesElse (level : Nat) (no : Option (List Instr)) :
    seps.Gives (linesElse level no) (seps.tokens (textElse no)) := by
  cases no with
  | none => exact .empty
  | some no =>
    rw [tokens_textElse_some]
    exact (seps.gives_line level "(else").append (gives_linesAll _ no)
      |>.append (seps.gives_line _ ")")
termination_by structural no

theorem gives_linesAll (level : Nat) (code : List Instr) :
    seps.Gives (linesAll level code) (seps.tokens (textAll code)) := by
  cases code with
  | nil => exact .empty
  | cons i code =>
    rw [tokens_textAll_cons]
    exact (gives_lines level i).append (gives_linesAll level code)
termination_by structural code

end

end Instr

/-- Whatever stands between words, the two texts of code have the same tokens: each of them opens
and closes a group where the other does. -/
theorem Code.tokens_lines (seps : Text.Separators) (level : Nat) (code : Code) :
    seps.tokens (code.lines level) = seps.tokens (String.join (code.map Instr.text)) := by
  rw [Code.lines, (Instr.gives_linesAll seps level code).eq, Instr.tokens_textAll]

example : Text.Separators.narrow.tokens (Code.lines 1 [.branch [.localGet "x"] (some [])]) =
    [.opening, .word "if", .opening, .word "then", .opening, .word "local.get", .word "$x",
      .closing, .closing, .opening, .word "else", .closing, .closing] := by
  decide

end ClassLang
