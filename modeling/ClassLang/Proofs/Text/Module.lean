/-
What the text of a module shows of it.

The text of a module is that of nested groups, and each part of a function stands in groups of its
own kind.  So nothing of a module is lost but the shapes that calls carry with them, as long as no
name in it breaks a word apart.
-/
import ClassLang.Module
import ClassLang.Proofs.Text.Instructions

namespace ClassLang

open Text Text.Separators

/-! ## Lists of trees -/

section Lists

variable {α β γ : Type}

theorem toList_injective : Function.Injective (Option.toList : Option α → List α) :=
  Function.LeftInverse.injective (g := List.head?) fun o => by cases o <;> rfl

theorem map_eq_of_map_eq {f : α → β} {g : α → γ} (each : ∀ a a', f a = f a' → g a = g a')
    {l l' : List α} (same : l.map f = l'.map f) : l.map g = l'.map g := by
  induction l generalizing l' with
  | nil => rw [List.map_eq_nil_iff.1 same.symm]
  | cons a l ih =>
    obtain ⟨a', rest, rfl, first, others⟩ := List.map_eq_cons_iff.1 same.symm
    rw [List.map_cons, List.map_cons, each a a' first.symm, ih others.symm]

end Lists

/-! ## Slots -/

/-- A parameter or a local. -/
def slot (keyword name : String) : Tree :=
  .group [.word keyword, .word ("$" ++ name), .word "i32"]

theorem slot_injective (keyword : String) : Function.Injective (slot keyword) := by
  intro name name' same
  injection same with same
  have word := Tree.word.inj (List.cons.inj (List.cons.inj same).2).1
  exact (String.append_right_inj "$").1 word

theorem gives_slot {opening keyword name : String}
    (opens : narrow.tokens opening = [.opening, .word keyword]) (whole : Whole name) :
    narrow.Gives (opening ++ (" $" ++ name) ++ " i32)") (slot keyword name).tokens := by
  have word : narrow.tokens (" $" ++ name) = [.word ("$" ++ name)] :=
    Operand.tokens_text (o := .name name) (List.forall_mem_singleton.2 whole)
  have begins : narrow.Begins (" $" ++ name) := Operand.begins_text (.name name)
  have type : narrow.Begins " i32" := begins_of_head rfl narrow.mark?_space
  have closed := narrow.gives_closing (opening ++ (" $" ++ name) ++ " i32")
  rw [tokens_append type, tokens_append begins, opens, word, String.append_assoc] at closed
  exact closed

/-! ## Globals -/

namespace Global

def tree (g : Global) : Tree :=
  .group [.word "global", .word ("$" ++ g.name), .group [.word "mut", .word "i32"],
    .group [.word "i32.const", .word (toString g.init)]]

theorem tree_injective : Function.Injective tree := by
  rintro ⟨name, init⟩ ⟨name', init'⟩ same
  injection same with same
  have word := Tree.word.inj (List.cons.inj (List.cons.inj same).2).1
  have names : name = name' := (String.append_right_inj "$").1 word
  have value := (List.cons.inj (List.cons.inj (List.cons.inj (List.cons.inj same).2).2).2).1
  injection value with value
  have numbers : init = init' :=
    Int32.toString_inj (Tree.word.inj (List.cons.inj (List.cons.inj value).2).1)
  rw [names, numbers]

theorem gives_text {g : Global} (whole : Whole g.name) (level : Nat) :
    narrow.Gives (line level g.text) g.tree.tokens := by
  have parts : g.text = "(global" ++ (Operand.name g.name).text ++ " (mut i32) (i32.const" ++
      (Operand.number g.init).text ++ "))" := by
    have first : "(global $" = "(global" ++ " $" := rfl
    have second : " (mut i32) (i32.const " = " (mut i32) (i32.const" ++ " " := rfl
    rw [text, first, second, Operand.text, Operand.text]
    simp only [String.append_assoc]
  have closing : narrow.Begins "))" := begins_of_head rfl narrow.mark?_closing
  have middle : narrow.Begins " (mut i32) (i32.const" := begins_of_head rfl narrow.mark?_space
  have tokens : narrow.tokens g.text = g.tree.tokens := by
    rw [parts, tokens_append closing, tokens_append (Operand.begins_text _), tokens_append middle,
      tokens_append (Operand.begins_text _),
      Operand.tokens_text (o := .name g.name) (List.forall_mem_singleton.2 whole),
      Operand.tokens_text (o := .number g.init) (List.forall_mem_nil _)]
    rfl
  rw [← tokens]
  exact narrow.gives_line level g.text

end Global

/-! ## Functions -/

namespace Func

variable {f f' : Func}

/-- The function without the shapes that calls carry with them. -/
def unshaped (f : Func) : Func := { f with body := Instr.unshapedAll f.body }

/-- All names in the function. -/
def names (f : Func) : List String :=
  f.name.toList ++ f.exportName.toList ++ f.params ++ f.locals ++ Code.names f.body

def nameTrees (f : Func) : List Tree := f.name.toList.map fun name => .word ("$" ++ name)

def exportTrees (f : Func) : List Tree :=
  f.exportName.toList.map fun name => .group [.word "export", .word ("\"" ++ name ++ "\"")]

def paramTrees (f : Func) : List Tree := f.params.map (slot "param")

def resultTrees (f : Func) : List Tree :=
  if f.result then [.group [.word "result", .word "i32"]] else []

def localTrees (f : Func) : List Tree := (scratch :: f.locals).map (slot "local")

/-- What stands in front of the code. -/
def declarations (f : Func) : List Tree :=
  f.nameTrees ++ f.exportTrees ++ f.paramTrees ++ f.resultTrees ++ f.localTrees

def tree (f : Func) : Tree :=
  .group (.word "func" :: (f.declarations ++ Instr.treeAll f.body))

/-! ### The tokens of a function are those of its tree -/

theorem begins_name (f : Func) :
    narrow.Begins (f.name.elim "" fun name => " $" ++ name) := by
  cases f.name with
  | none => exact begins_empty
  | some name => exact Operand.begins_text (.name name)

theorem tokens_name (whole : ∀ name ∈ f.name.toList, Whole name) :
    narrow.tokens (f.name.elim "" fun name => " $" ++ name) = Tree.tokensAll f.nameTrees := by
  unfold nameTrees
  cases h : f.name with
  | none => rfl
  | some name =>
    rw [h] at whole
    exact Operand.tokens_text (o := .name name) whole

theorem begins_export (f : Func) :
    narrow.Begins (f.exportName.elim "" fun name => " (export \"" ++ name ++ "\")") := by
  cases f.exportName with
  | none => exact begins_empty
  | some name => exact begins_of_head (by simp) narrow.mark?_space

theorem tokens_export (whole : ∀ name ∈ f.exportName.toList, Whole name) :
    narrow.tokens (f.exportName.elim "" fun name => " (export \"" ++ name ++ "\")") =
      Tree.tokensAll f.exportTrees := by
  unfold exportTrees
  cases h : f.exportName with
  | none => rfl
  | some name =>
    rw [h] at whole
    have quoted : Whole ("\"" ++ name ++ "\"") :=
      ((by decide : Whole "\"").append (whole name List.mem_cons_self)).append (by decide)
    have text : " (export \"" ++ name ++ "\")" =
        " (export" ++ (" " ++ ("\"" ++ name ++ "\"")) ++ ")" := by
      have first : " (export \"" = " (export" ++ " " ++ "\"" := rfl
      have last : "\")" = "\"" ++ ")" := rfl
      rw [first, last]
      simp only [String.append_assoc]
    have ne : "\"" ++ name ++ "\"" ≠ "" :=
      fun empty => absurd (String.append_eq_empty_iff.1 empty).2 (by decide)
    have begins : narrow.Begins (" " ++ ("\"" ++ name ++ "\"")) :=
      begins_of_head (by simp) narrow.mark?_space
    rw [Option.elim_some, text, (narrow.gives_closing _).eq, tokens_append begins, tokens_space,
      tokens_whole quoted ne]
    rfl

theorem gives_params (whole : ∀ name ∈ f.params, Whole name) :
    narrow.Gives (String.join (f.params.map fun name => " (param $" ++ name ++ " i32)"))
      (Tree.tokensAll f.paramTrees) := by
  rw [paramTrees, Tree.tokensAll_map]
  refine .join fun name mem => ?_
  have text : " (param $" ++ name ++ " i32)" = " (param" ++ (" $" ++ name) ++ " i32)" := by
    rw [← String.append_assoc]
    rfl
  rw [text]
  exact gives_slot rfl (whole name mem)

theorem begins_params (f : Func) :
    narrow.Begins (String.join (f.params.map fun name => " (param $" ++ name ++ " i32)")) := by
  cases f.params with
  | nil => exact begins_empty
  | cons name rest => exact begins_of_head (by simp) narrow.mark?_space

theorem begins_result (f : Func) : narrow.Begins (if f.result then " (result i32)" else "") := by
  split
  · exact begins_of_head rfl narrow.mark?_space
  · exact begins_empty

theorem tokens_result (f : Func) :
    narrow.tokens (if f.result then " (result i32)" else "") = Tree.tokensAll f.resultTrees := by
  unfold resultTrees
  split
  · rfl
  · rfl

/-- No name of the function breaks a word apart. -/
structure IsWhole (f : Func) : Prop where
  name : ∀ name ∈ f.name.toList, Whole name
  exportName : ∀ name ∈ f.exportName.toList, Whole name
  params : ∀ name ∈ f.params, Whole name
  locals : ∀ name ∈ f.locals, Whole name
  body : ∀ name ∈ Code.names f.body, Whole name

theorem isWhole_of_names (whole : ∀ name ∈ f.names, Whole name) : f.IsWhole := by
  simp only [names, List.forall_mem_append] at whole
  obtain ⟨⟨⟨⟨name, exportName⟩, params⟩, locals⟩, body⟩ := whole
  exact { name, exportName, params, locals, body }

theorem tokens_header (whole : f.IsWhole) :
    narrow.tokens f.header =
      [.opening, .word "func"] ++ Tree.tokensAll f.nameTrees ++ Tree.tokensAll f.exportTrees ++
        Tree.tokensAll f.paramTrees ++ Tree.tokensAll f.resultTrees := by
  rw [header, tokens_append f.begins_result, tokens_append f.begins_params,
    tokens_append f.begins_export, tokens_append f.begins_name, tokens_name whole.name,
    tokens_export whole.exportName, (gives_params whole.params).eq, tokens_result]
  rfl

theorem gives_locals (whole : ∀ name ∈ f.locals, Whole name) (level : Nat) :
    narrow.Gives (String.join ((scratch :: f.locals).map (localLine level)))
      (Tree.tokensAll f.localTrees) := by
  rw [localTrees, Tree.tokensAll_map]
  refine .join fun name mem => ?_
  have whole : Whole name := by
    rcases List.mem_cons.1 mem with rfl | mem
    · decide
    · exact whole name mem
  have text : "(local $" ++ name ++ " i32)" = "(local" ++ (" $" ++ name) ++ " i32)" := by
    rw [← String.append_assoc]
    rfl
  have gives : narrow.Gives ("(local" ++ (" $" ++ name) ++ " i32)") (slot "local" name).tokens :=
    gives_slot rfl whole
  rw [localLine, text, ← gives.eq]
  exact narrow.gives_line level _

theorem gives_text (whole : f.IsWhole) (level : Nat) :
    narrow.Gives (f.text level) f.tree.tokens := by
  have tokens : f.tree.tokens =
      narrow.tokens f.header ++ Tree.tokensAll f.localTrees ++
        Tree.tokensAll (Instr.treeAll f.body) ++ [.closing] := by
    simp [tokens_header whole, tree, declarations, Tree.tokens, Tree.tokensAll,
      Tree.tokensAll_append]
  rw [tokens]
  exact (narrow.gives_line level f.header).append (gives_locals whole.locals (level + 1))
    |>.append (Code.gives_lines whole.body (level + 1)) |>.append (narrow.gives_line level ")")

/-! ### Trees show all of a function but the shapes of calls -/

theorem keyword_nameTrees : ∀ t ∈ f.nameTrees, t.keyword = "" :=
  List.forall_mem_map.2 fun _ _ => rfl

theorem keyword_exportTrees : ∀ t ∈ f.exportTrees, t.keyword = "export" :=
  List.forall_mem_map.2 fun _ _ => rfl

theorem keyword_paramTrees : ∀ t ∈ f.paramTrees, t.keyword = "param" :=
  List.forall_mem_map.2 fun _ _ => rfl

theorem keyword_resultTrees : ∀ t ∈ f.resultTrees, t.keyword = "result" := by
  unfold resultTrees
  split
  · exact List.forall_mem_singleton.2 rfl
  · exact List.forall_mem_nil _

theorem keyword_localTrees : ∀ t ∈ f.localTrees, t.keyword = "local" :=
  List.forall_mem_map.2 fun _ _ => rfl

/-- The keywords of declarations. -/
def keywords : List String := ["", "export", "param", "result", "local"]

theorem mnemonic_not_mem_keywords (i : Instr) : i.mnemonic ∉ keywords := by
  cases i <;> (rw [Instr.mnemonic]; decide)

theorem under_code {key : String} (declares : key ∈ keywords) (code : Code) :
    Tree.under key (Instr.treeAll code) = [] := by
  induction code with
  | nil => rfl
  | cons i rest ih =>
    have other : i.tree.keyword ≠ key := by
      rw [Instr.keyword_tree]
      exact fun same => mnemonic_not_mem_keywords i (same ▸ declares)
    rw [Instr.treeAll, Tree.under, List.filter_cons_of_neg (by simpa using other)]
    exact ih

/-- Each part of the declarations has a keyword of its own. -/
theorem under_parts {key : String} (declares : key ∈ keywords) (f : Func) :
    Tree.under key (f.declarations ++ Instr.treeAll f.body) =
      (if "" = key then f.nameTrees else []) ++ (if "export" = key then f.exportTrees else []) ++
        (if "param" = key then f.paramTrees else []) ++
          (if "result" = key then f.resultTrees else []) ++
            (if "local" = key then f.localTrees else []) := by
  simp only [declarations, Tree.under_append, Tree.under_of_keyword keyword_nameTrees,
    Tree.under_of_keyword keyword_exportTrees, Tree.under_of_keyword keyword_paramTrees,
    Tree.under_of_keyword keyword_resultTrees, Tree.under_of_keyword keyword_localTrees,
    under_code declares, List.append_nil]

theorem parts_of_tree (same : f.tree = f'.tree) :
    f.nameTrees = f'.nameTrees ∧ f.exportTrees = f'.exportTrees ∧ f.paramTrees = f'.paramTrees ∧
      f.resultTrees = f'.resultTrees ∧ f.localTrees = f'.localTrees := by
  injection same with same
  have part (key : String) (declares : key ∈ keywords) := by
    have kind := congrArg (Tree.under key) (List.cons.inj same).2
    rw [under_parts declares, under_parts declares] at kind
    exact kind
  refine ⟨?_, ?_, ?_, ?_, ?_⟩
  · simpa using part "" (by decide)
  · simpa using part "export" (by decide)
  · simpa using part "param" (by decide)
  · simpa using part "result" (by decide)
  · simpa using part "local" (by decide)

theorem name_of_nameTrees (same : f.nameTrees = f'.nameTrees) : f.name = f'.name := by
  have word : Function.Injective fun name : String => Tree.word ("$" ++ name) :=
    fun _ _ same => (String.append_right_inj "$").1 (Tree.word.inj same)
  exact toList_injective (word.list_map same)

theorem exportName_of_exportTrees (same : f.exportTrees = f'.exportTrees) :
    f.exportName = f'.exportName := by
  have group : Function.Injective fun name : String =>
      Tree.group [.word "export", .word ("\"" ++ name ++ "\"")] := by
    intro name name' same
    injection same with same
    have word := Tree.word.inj (List.cons.inj (List.cons.inj same).2).1
    exact (String.append_right_inj "\"").1 ((String.append_left_inj "\"").1 word)
  exact toList_injective (group.list_map same)

theorem result_of_resultTrees (same : f.resultTrees = f'.resultTrees) : f.result = f'.result := by
  unfold resultTrees at same
  cases h : f.result <;> cases h' : f'.result
  · rfl
  · rw [h, h'] at same
    cases same
  · rw [h, h'] at same
    cases same
  · rfl

theorem unshaped_of_tree (same : f.tree = f'.tree) : f.unshaped = f'.unshaped := by
  obtain ⟨names, exports, params, results, locals⟩ := parts_of_tree same
  have declared : f.declarations = f'.declarations := by
    rw [declarations, declarations, names, exports, params, results, locals]
  injection same with same
  -- behind equal declarations stands equal code
  have code := (List.cons.inj same).2
  rw [declared] at code
  have body := Instr.unshapedAll_of_treeAll (List.append_cancel_left code)
  have params := (slot_injective "param").list_map params
  have locals := (List.cons.inj ((slot_injective "local").list_map locals)).2
  rw [unshaped, unshaped, name_of_nameTrees names, exportName_of_exportTrees exports, params,
    result_of_resultTrees results, locals, body]

theorem text_unshaped (level : Nat) (f : Func) : f.unshaped.text level = f.text level := by
  have body : Code.lines (level + 1) f.unshaped.body = Code.lines (level + 1) f.body :=
    Instr.linesAll_unshapedAll (level + 1) f.body
  rw [text, text, body]
  rfl

end Func

/-! ## Modules -/

namespace Module

variable {m m' : Module}

/-- The module without the shapes that calls carry with them. -/
def unshaped (m : Module) : Module :=
  { m with functions := m.functions.map Func.unshaped, entry := m.entry.unshaped }

/-- All names in the module: of globals, of functions and of what they export, and those that stand
in their code. -/
def names (m : Module) : List String :=
  m.globals.map Global.name ++ (m.functions ++ [m.entry]).flatMap Func.names

/-- What stands behind the fixed opening. -/
def trees (m : Module) : List Tree :=
  m.globals.map Global.tree ++ (m.functions ++ [m.entry]).map Func.tree

/-- The tokens of the fixed opening. -/
def opening : List Token :=
  narrow.tokens "(module" ++ (Host.imports.flatMap fun i => narrow.tokens i.text) ++
    narrow.tokens "(import \"js\" \"mem\" (memory 1))" ++
      (Global.tree { name := heap, init := heapStart }).tokens

theorem under_global (m : Module) : Tree.under "global" m.trees = m.globals.map Global.tree := by
  have globals : ∀ t ∈ m.globals.map Global.tree, t.keyword = "global" :=
    List.forall_mem_map.2 fun _ _ => rfl
  have functions : ∀ t ∈ (m.functions ++ [m.entry]).map Func.tree, t.keyword = "func" :=
    List.forall_mem_map.2 fun _ _ => rfl
  rw [trees, Tree.under_append, Tree.under_of_keyword globals, Tree.under_of_keyword functions,
    if_pos rfl, if_neg (by decide), List.append_nil]

theorem unshaped_of_trees (same : m.trees = m'.trees) : m.unshaped = m'.unshaped := by
  have globals : m.globals = m'.globals := by
    have kind := congrArg (Tree.under "global") same
    rw [under_global, under_global] at kind
    exact Global.tree_injective.list_map kind
  rw [trees, trees, globals] at same
  have functions : (m.functions ++ [m.entry]).map Func.unshaped =
      (m'.functions ++ [m'.entry]).map Func.unshaped :=
    map_eq_of_map_eq (fun _ _ => Func.unshaped_of_tree) (List.append_cancel_left same)
  -- the entry function is the last one
  rw [List.map_append, List.map_append] at functions
  obtain ⟨functions, entry⟩ := List.append_singleton_inj.1 functions
  rw [unshaped, unshaped, globals, functions, entry]

theorem tokens_text (whole : ∀ name ∈ m.names, Whole name) :
    narrow.tokens m.text = opening ++ (Tree.tokensAll m.trees ++ [.closing]) := by
  rw [names, List.forall_mem_append, List.forall_mem_map] at whole
  have isWhole (f : Func) (mem : f ∈ m.functions ++ [m.entry]) : f.IsWhole :=
    Func.isWhole_of_names fun name mem' => whole.2 name (List.mem_flatMap.2 ⟨f, mem, mem'⟩)
  have wholeGlobal : ∀ g ∈ { name := heap, init := heapStart } :: m.globals, Whole g.name :=
    List.forall_mem_cons.2 ⟨by decide, whole.1⟩
  have imports := Gives.join fun i (_ : i ∈ Host.imports) => narrow.gives_line 1 i.text
  have globals := Gives.join fun g mem => Global.gives_text (wholeGlobal g mem) 1
  have functions := Gives.join fun f (mem : f ∈ m.functions) =>
    Func.gives_text (isWhole f (List.mem_append_left _ mem)) 1
  have entry := Func.gives_text (isWhole m.entry (List.mem_append_right _ List.mem_cons_self)) 1
  have lines := (narrow.gives_line 0 "(module").append imports
    |>.append (narrow.gives_line 1 "(import \"js\" \"mem\" (memory 1))") |>.append globals
    |>.append functions |>.append entry |>.append (narrow.gives_line 0 ")")
  have closing : narrow.tokens ")" = [.closing] := rfl
  refine lines.eq.trans ?_
  simp only [opening, trees, closing, Tree.tokensAll_append, Tree.tokensAll_map,
    List.flatMap_append, List.flatMap_cons, List.flatMap_nil, List.nil_append, List.append_assoc]

theorem text_unshaped (m : Module) : m.unshaped.text = m.text := by
  have functions : m.unshaped.functions.map (·.text 1) = m.functions.map (·.text 1) := by
    rw [unshaped, List.map_map]
    exact List.map_congr_left fun f _ => f.text_unshaped 1
  rw [text, text, functions, unshaped, Func.text_unshaped]

/-- The text of a module decides it up to the shapes that its calls carry, provided that no blank,
end of line or parenthesis is in a name.  Quotes and other white space do no harm. -/
theorem text_eq_iff (whole : ∀ name ∈ m.names, Whole name)
    (whole' : ∀ name ∈ m'.names, Whole name) :
    m.text = m'.text ↔ m.unshaped = m'.unshaped := by
  constructor
  · intro same
    have tokens := congrArg narrow.tokens same
    rw [tokens_text whole, tokens_text whole'] at tokens
    exact unshaped_of_trees (Tree.tokensAll_closing_inj (List.append_cancel_left tokens)).1
  · intro same
    rw [← text_unshaped m, same, text_unshaped]

/-- A module with a call in one arm of a branch. -/
def branching (no : Option Code) (params : Nat) : Module where
  globals := [⟨"total", -1⟩]
  functions := [{ Func.blank with name := some "f", params := ["x"], locals := ["y"] }]
  entry :=
    { Func.blank with
      exportName := some entryExport
      body := [.const 1, .branch [.branch [.call "f" params false] none] no, .ret] }

/-- The text does not show what a call takes, and it shows whether there is an `else`, even if
nothing is in it. -/
theorem text_eq_iff_branching :
    (branching (some []) 1).text = (branching (some []) 2).text ∧
    (branching none 1).text ≠ (branching (some []) 1).text := by
  have shapes : (branching (some []) 1).text = (branching (some []) 2).text ↔ _ :=
    text_eq_iff (by decide) (by decide)
  have arms : (branching none 1).text = (branching (some []) 1).text ↔ _ :=
    text_eq_iff (by decide) (by decide)
  refine ⟨shapes.2 rfl, fun same => ?_⟩
  have body := congrArg (fun m : Module => m.entry.body) (arms.1 same)
  cases body

end Module

end ClassLang
