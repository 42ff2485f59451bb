/-
Code as trees.

Every instruction is a group that starts with its mnemonic.  The tokens of code are those of its
trees as long as no name breaks a word apart, and the trees show all of the code but the shapes
that calls carry with them.
-/
import ClassLang.Proofs.Json.Dump
import ClassLang.Proofs.Lowering.Instructions
import ClassLang.Proofs.Text.Code
import ClassLang.Proofs.Text.Tree

namespace ClassLang

open Text Text.Separators

/-! ## Numbers in texts -/

namespace Int32

theorem ofWord?_toString (n : Int32) :
    Json.Token.ofWord? (toString n).toList = some (.scalar (.int n.toInt)) :=
  Json.ofWord?_toString (Json.isWord64_toInt n)

theorem toString_inj {m n : Int32} (same : toString m = toString n) : m = n := by
  have read := ofWord?_toString m
  rw [same, ofWord?_toString n] at read
  injection read with read
  injection read with read
  injection read with read
  exact Int32.toInt_inj.1 read.symm

theorem isWordChar_of_mem_toString {n : Int32} {c : Char} (mem : c ∈ (toString n).toList) :
    Json.isWordChar c = true :=
  List.all_eq_true.1 (Json.all_isWordChar_toString n.toInt) c mem

theorem whole_toString (n : Int32) : Whole (toString n) := by
  intro c mem
  have inWord := isWordChar_of_mem_toString mem
  simp only [List.mem_cons, List.not_mem_nil, or_false, not_or]
  exact ⟨Json.ne_of_isWordChar rfl inWord, Json.ne_of_isWordChar rfl inWord,
    Json.ne_of_isWordChar rfl inWord, Json.ne_of_isWordChar rfl inWord⟩

theorem toString_ne_empty (n : Int32) : toString n ≠ "" := by
  intro empty
  have read := ofWord?_toString n
  rw [empty] at read
  cases read

theorem toString_ne_dollar (n : Int32) (text : String) : toString n ≠ "$" ++ text := by
  intro same
  have mem : '$' ∈ (toString n).toList := by
    rw [same, String.toList_append]
    exact List.mem_append_left _ (by decide)
  exact absurd (isWordChar_of_mem_toString mem) (by decide)

end Int32

/-! ## Instructions that are not branches -/

/-- What stands behind the mnemonic. -/
inductive Operand where
  | none
  | number (value : Int32)
  | name (text : String)

namespace Operand

def text : Operand → String
  | none => ""
  | number value => " " ++ toString value
  | name text => " $" ++ text

def words : Operand → List String
  | none => []
  | number value => [toString value]
  | name text => ["$" ++ text]

def names : Operand → List String
  | name text => [text]
  | _ => []

/-- The instructions that take such an operand. -/
def instrs : Operand → List Instr
  | none => [.add, .sub, .mul, .divS, .remS, .xor, .eq, .ne, .gtS, .ltS, .geS, .leS, .load, .store,
      .ret, .nop]
  | number value => [.const value]
  | name text => [.localGet text, .localSet text, .globalGet text, .globalSet text,
      .call text 0 false]

theorem whole_dollar {text : String} (whole : Whole text) : Whole ("$" ++ text) :=
  Whole.append (by decide) whole

theorem dollar_ne_empty (text : String) : "$" ++ text ≠ "" :=
  fun empty => absurd (String.append_eq_empty_iff.1 empty).1 (by decide)

theorem begins_text (o : Operand) : narrow.Begins o.text := by
  cases o with
  | none => exact begins_empty
  | number value => exact begins_of_head (by simp [text]) narrow.mark?_space
  | name text => exact begins_of_head (by simp [Operand.text]) narrow.mark?_space

theorem tokens_text {o : Operand} (whole : ∀ name ∈ o.names, Whole name) :
    narrow.tokens o.text = o.words.map .word := by
  cases o with
  | none => rfl
  | number value =>
    exact (narrow.tokens_space _).trans
      (tokens_whole (Int32.whole_toString value) (Int32.toString_ne_empty value))
  | name text =>
    have behind : " $" ++ text = " " ++ ("$" ++ text) := by
      rw [← String.append_assoc]
      rfl
    have whole : Whole text := whole text List.mem_cons_self
    rw [Operand.text, behind, tokens_space]
    exact tokens_whole (whole_dollar whole) (dollar_ne_empty text)

theorem words_injective {o o' : Operand} (same : o.words = o'.words) : o = o' := by
  cases o with
  | none => cases o' <;> first | rfl | cases same
  | number value =>
    cases o' with
    | none => cases same
    | number value' => rw [Int32.toString_inj (List.cons.inj same).1]
    | name text => exact absurd (List.cons.inj same).1 (Int32.toString_ne_dollar value text)
  | name text =>
    cases o' with
    | none => cases same
    | number value => exact absurd (List.cons.inj same).1.symm (Int32.toString_ne_dollar value text)
    | name text' => rw [(String.append_right_inj "$").1 (List.cons.inj same).1]

end Operand

namespace Instr

def operand : Instr → Operand
  | .const value => .number value
  | .localGet name | .localSet name | .globalGet name | .globalSet name | .call name _ _ =>
    .name name
  | _ => .none

/-- The names that the instruction itself mentions. -/
def names (i : Instr) : List String := i.operand.names

mutual

/-- The instruction without the shapes that calls carry with them, at whatever depth. -/
def unshaped : Instr → Instr
  | .call func _ _ => .call func 0 false
  | .branch yes no => .branch (unshapedAll yes) (unshapedElse no)
  | i => i
termination_by structural i => i

def unshapedElse : Option (List Instr) → Option (List Instr)
  | none => none
  | some no => some (unshapedAll no)
termination_by structural no => no

def unshapedAll : List Instr → List Instr
  | [] => []
  | i :: rest => i.unshaped :: unshapedAll rest
termination_by structural is => is

end

mutual

def tree : Instr → Tree
  | .branch yes no => .group (.word "if" :: .group (.word "then" :: treeAll yes) :: treeElse no)
  | i => .group (.word i.mnemonic :: i.operand.words.map .word)
termination_by structural i => i

def treeElse : Option (List Instr) → List Tree
  | none => []
  | some no => [.group (.word "else" :: treeAll no)]
termination_by structural no => no

def treeAll : List Instr → List Tree
  | [] => []
  | i :: rest => i.tree :: treeAll rest
termination_by structural is => is

end

theorem mnemonic_whole (i : Instr) : Whole i.mnemonic ∧ i.mnemonic ≠ "" := by
  cases i <;> (rw [mnemonic]; decide)

theorem mnemonic_eq_if {i : Instr} : i.mnemonic = "if" ↔ ∃ yes no, i = .branch yes no := by
  constructor
  · intro same
    cases i with
    | branch yes no => exact ⟨yes, no, rfl⟩
    | _ => exact absurd same (by rw [mnemonic]; decide)
  · rintro ⟨yes, no, rfl⟩
    rfl

theorem keyword_tree (i : Instr) : i.tree.keyword = i.mnemonic := by
  cases i <;> rfl

/-! ## The tokens of code are those of its trees -/

section Leaf

variable {i j : Instr}

theorem text_leaf (leaf : ∀ yes no, i ≠ .branch yes no) :
    i.text = "(" ++ i.mnemonic ++ i.operand.text ++ ")" := by
  cases i with
  | branch yes no => exact absurd rfl (leaf yes no)
  | const | localGet | localSet | globalGet | globalSet | call =>
    rw [operand, Operand.text, ← String.append_assoc]
    rfl
  | _ => rfl

theorem tree_leaf (leaf : ∀ yes no, i ≠ .branch yes no) :
    i.tree = .group (.word i.mnemonic :: i.operand.words.map .word) := by
  cases i with
  | branch yes no => exact absurd rfl (leaf yes no)
  | _ => rfl

theorem tokens_text_leaf (leaf : ∀ yes no, i ≠ .branch yes no)
    (whole : ∀ name ∈ i.names, Whole name) : narrow.tokens i.text = i.tree.tokens := by
  have opening : narrow.tokens ("(" ++ i.mnemonic) = [.opening, .word i.mnemonic] := by
    rw [tokens_opening, tokens_whole i.mnemonic_whole.1 i.mnemonic_whole.2]
  rw [text_leaf leaf, tree_leaf leaf, (narrow.gives_closing _).eq,
    tokens_append i.operand.begins_text, opening, Operand.tokens_text whole, Tree.tokens,
    Tree.tokensAll, Tree.tokensAll_words]
  rfl

end Leaf

mutual

theorem tokens_text (i : Instr) (whole : ∀ j ∈ i.flat, ∀ name ∈ j.names, Whole name) :
    narrow.tokens i.text = i.tree.tokens := by
  cases i with
  | branch yes no =>
    have inside := (List.forall_mem_cons.1 whole).2
    rw [List.forall_mem_append] at inside
    have opening : narrow.tokens "(if" = [.opening, .word "if"] := by decide
    have arm : narrow.tokens "(then" = [.opening, .word "then"] := by decide
    rw [tokens_text_branch, opening, arm, tokens_textAll_tree yes inside.1,
      tokens_textElse no inside.2]
    simp [tree, Tree.tokens, Tree.tokensAll]
  | _ => exact tokens_text_leaf nofun (whole _ List.mem_cons_self)
termination_by structural i

theorem tokens_textElse (no : Option (List Instr))
    (whole : ∀ j ∈ Code.alternativeFlat no, ∀ name ∈ j.names, Whole name) :
    narrow.tokens (textElse no) = Tree.tokensAll (treeElse no) := by
  cases no with
  | none => rfl
  | some no =>
    have arm : narrow.tokens "(else" = [.opening, .word "else"] := by decide
    rw [tokens_textElse_some, arm, tokens_textAll_tree no whole]
    simp [treeElse, Tree.tokens, Tree.tokensAll]
termination_by structural no

theorem tokens_textAll_tree (code : List Instr)
    (whole : ∀ j ∈ Code.flat code, ∀ name ∈ j.names, Whole name) :
    narrow.tokens (textAll code) = Tree.tokensAll (treeAll code) := by
  cases code with
  | nil => rfl
  | cons i rest =>
    rw [Code.flat, List.forall_mem_append] at whole
    rw [tokens_textAll_cons, tokens_text i whole.1, tokens_textAll_tree rest whole.2, treeAll,
      Tree.tokensAll]
termination_by structural code

end

/-! ## Trees show all but the shapes of calls -/

theorem find?_instrs {i : Instr} (leaf : ∀ yes no, i ≠ .branch yes no) :
    i.operand.instrs.find? (·.mnemonic = i.mnemonic) = some i.unshaped := by
  cases i with
  | branch yes no => exact absurd rfl (leaf yes no)
  | _ => rfl

theorem unshaped_of_tree_leaf {i j : Instr} (leaf : ∀ yes no, i ≠ .branch yes no)
    (same : i.tree = j.tree) : i.unshaped = j.unshaped := by
  have mnemonics : i.mnemonic = j.mnemonic := by
    rw [← keyword_tree, ← keyword_tree, same]
  have leaf' (yes no) : j ≠ .branch yes no := by
    intro isBranch
    have mnemonic : i.mnemonic = "if" := mnemonics.trans (mnemonic_eq_if.2 ⟨yes, no, isBranch⟩)
    obtain ⟨yes, no, other⟩ := mnemonic_eq_if.1 mnemonic
    exact leaf yes no other
  have operands : i.operand = j.operand := by
    rw [tree_leaf leaf, tree_leaf leaf'] at same
    injection same with same
    refine Operand.words_injective (List.map_injective_iff.2 ?_ (List.cons.inj same).2)
    exact fun _ _ => Tree.word.inj
  have found := find?_instrs leaf
  rw [operands, mnemonics, find?_instrs leaf'] at found
  exact (Option.some.inj found).symm

mutual

theorem unshaped_of_tree {i j : Instr} (same : i.tree = j.tree) : i.unshaped = j.unshaped := by
  cases i with
  | branch yes no =>
    have isBranch : j.mnemonic = "if" := by
      rw [← keyword_tree, ← same]
      rfl
    obtain ⟨yes', no', rfl⟩ := mnemonic_eq_if.1 isBranch
    injection same with same
    obtain ⟨arm, others⟩ := List.cons.inj (List.cons.inj same).2
    injection arm with arm
    rw [unshaped, unshaped, unshapedAll_of_treeAll (List.cons.inj arm).2,
      unshapedElse_of_treeElse others]
  | _ => exact unshaped_of_tree_leaf nofun same
termination_by structural i

theorem unshapedElse_of_treeElse {no no' : Option (List Instr)}
    (same : treeElse no = treeElse no') : unshapedElse no = unshapedElse no' := by
  cases no with
  | none =>
    cases no' with
    | none => rfl
    | some _ => cases same
  | some no =>
    cases no' with
    | none => cases same
    | some no' =>
      injection (List.cons.inj same).1 with same
      rw [unshapedElse, unshapedElse, unshapedAll_of_treeAll (List.cons.inj same).2]
termination_by structural no

theorem unshapedAll_of_treeAll {code code' : List Instr}
    (same : treeAll code = treeAll code') : unshapedAll code = unshapedAll code' := by
  cases code with
  | nil =>
    cases code' with
    | nil => rfl
    | cons _ _ => cases same
  | cons i rest =>
    cases code' with
    | nil => cases same
    | cons j rest' =>
      obtain ⟨first, others⟩ := List.cons.inj same
      rw [unshapedAll, unshapedAll, unshaped_of_tree first, unshapedAll_of_treeAll others]
termination_by structural code

end

/-! ## Texts do not show the shapes of calls -/

mutual

theorem lines_unshaped (level : Nat) (i : Instr) : lines level i.unshaped = lines level i := by
  cases i with
  | branch yes no =>
    rw [unshaped, lines, lines, linesAll_unshapedAll _ yes, linesElse_unshapedElse _ no]
  | _ => rfl
termination_by structural i

theorem linesElse_unshapedElse (level : Nat) (no : Option (List Instr)) :
    linesElse level (unshapedElse no) = linesElse level no := by
  cases no with
  | none => rfl
  | some no => rw [unshapedElse, linesElse, linesElse, linesAll_unshapedAll _ no]
termination_by structural no

theorem linesAll_unshapedAll (level : Nat) (code : List Instr) :
    linesAll level (unshapedAll code) = linesAll level code := by
  cases code with
  | nil => rfl
  | cons i rest =>
    rw [unshapedAll, linesAll, linesAll, lines_unshaped _ i, linesAll_unshapedAll _ rest]
termination_by structural code

end

end Instr

/-- All names that the code mentions, at whatever depth. -/
def Code.names (code : Code) : List String := (Code.flat code).flatMap Instr.names

theorem Code.gives_lines {code : Code} (whole : ∀ name ∈ code.names, Whole name) (level : Nat) :
    narrow.Gives (code.lines level) (Tree.tokensAll (Instr.treeAll code)) := by
  rw [← Instr.tokens_textAll_tree code fun i mem name mem' =>
    whole name (List.mem_flatMap.2 ⟨i, mem, mem'⟩)]
  exact Instr.gives_linesAll narrow level code

end ClassLang
