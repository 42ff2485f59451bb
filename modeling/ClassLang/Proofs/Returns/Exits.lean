/-
What methods hand back where they return.

The code of a method has one return for each return of the method, at the same depth and in the same
order, and one more at its end.  Right before each stands the instruction that puts there what the
return hands back.  In a constructor that is always the new object: the checker refuses every return
of a value in it but that of `None`, and this one the generator takes for a return without a value.
-/
import ClassLang.Proofs.Compile
import ClassLang.Proofs.Lowering.Instructions
import ClassLang.Proofs.Lowering.Parens
import ClassLang.Proofs.Stack.Lowering
import Mathlib.Data.List.Forall2

namespace ClassLang

/-! ## Returns of code -/

mutual

def Instr.exits (before : Option Instr) : Instr → List (Option Instr)
  | .ret => [before]
  | .branch yes no => Code.exitsFrom none yes ++ Code.alternativeExits no
  | _ => []
termination_by structural i => i

/-- What stands right before each return of the code, at every depth, in the order of the text: an
instruction of the same block, or nothing.  `before` stands before the code itself. -/
def Code.exitsFrom (before : Option Instr) : List Instr → List (Option Instr)
  | [] => []
  | i :: rest => i.exits before ++ Code.exitsFrom (some i) rest
termination_by structural code => code

def Code.alternativeExits : Option (List Instr) → List (Option Instr)
  | none => []
  | some code => Code.exitsFrom none code
termination_by structural no => no

end

def Code.exits (code : Code) : List (Option Instr) := Code.exitsFrom none code

namespace Code

theorem exitsFrom_append (before : Option Instr) (first second : Code) :
    exitsFrom before (first ++ second) =
      exitsFrom before first ++ exitsFrom (first.getLast?.or before) second := by
  induction first generalizing before with
  | nil => rfl
  | cons i rest ih =>
    have last : rest.getLast?.or (some i) = (i :: rest).getLast?.or before := by
      rw [List.getLast?_cons]
      cases rest.getLast? <;> rfl
    rw [List.cons_append, exitsFrom, exitsFrom, ih, last, List.append_assoc]

end Code

mutual

theorem Instr.exits_eq_nil (before : Option Instr) (i : Instr) (h : ∀ j ∈ i.flat, j ≠ .ret) :
    i.exits before = [] := by
  cases i with
  | ret => exact absurd rfl (h .ret List.mem_cons_self)
  | branch yes no =>
    have inside := (List.forall_mem_cons.1 h).2
    obtain ⟨inYes, inNo⟩ := List.forall_mem_append.1 inside
    rw [Instr.exits, Code.exitsFrom_eq_nil none yes inYes, Code.alternativeExits_eq_nil no inNo]
    rfl
  | _ => rfl

theorem Code.exitsFrom_eq_nil (before : Option Instr) (code : List Instr)
    (h : Code.All (· ≠ .ret) code) : Code.exitsFrom before code = [] := by
  cases code with
  | nil => rfl
  | cons i rest =>
    obtain ⟨first, others⟩ := List.forall_mem_append.1 h
    rw [Code.exitsFrom, Instr.exits_eq_nil before i first, Code.exitsFrom_eq_nil (some i) rest others]
    rfl

theorem Code.alternativeExits_eq_nil (no : Option (List Instr))
    (h : ∀ j ∈ Code.alternativeFlat no, j ≠ .ret) : Code.alternativeExits no = [] := by
  cases no with
  | none => rfl
  | some code => exact Code.exitsFrom_eq_nil none code h

end

/-! ## Returns of statements -/

namespace Typed

mutual

/-- What stands behind each return within a statement, in the order of the text; nothing behind a
bare one. -/
def Stmt.returned : Stmt → List (Option Expr)
  | .ret _ value => [value]
  | .branch _ arm => arm.returned
  | _ => []
termination_by structural s => s

def Arm.returned : Arm → List (Option Expr)
  | .mk _ _ body alternative => Stmt.returnedOf body ++ Arm.alternativeReturned alternative
termination_by structural a => a

def Arm.alternativeReturned : Option Arm → List (Option Expr)
  | none => []
  | some arm => arm.returned
termination_by structural a => a

def Stmt.returnedOf : List Stmt → List (Option Expr)
  | [] => []
  | s :: rest => s.returned ++ Stmt.returnedOf rest
termination_by structural ss => ss

end

mutual

theorem Stmt.returned_erase (s : Stmt) :
    s.erase.returned = s.returned.filterMap (·.map Expr.erase) := by
  cases s with
  | ret ty value => cases value <;> rfl
  | branch ty arm => exact Arm.returned_erase arm
  | _ => rfl

theorem Arm.returned_erase (arm : Arm) :
    arm.erase.returned = arm.returned.filterMap (·.map Expr.erase) := by
  cases arm with
  | mk ty condition body alternative =>
    rw [Arm.erase, Source.Arm.returned, Arm.returned, List.filterMap_append,
      Stmt.returnedOf_eraseAll body, Arm.alternativeReturned_erase alternative]

theorem Arm.alternativeReturned_erase (alternative : Option Arm) :
    Source.Arm.alternativeReturned (Arm.eraseAlternative alternative) =
      (Arm.alternativeReturned alternative).filterMap (·.map Expr.erase) := by
  cases alternative with
  | none => rfl
  | some arm => exact Arm.returned_erase arm

theorem Stmt.returnedOf_eraseAll (stmts : List Stmt) :
    Source.Stmt.returnedOf (Stmt.eraseAll stmts) =
      (Stmt.returnedOf stmts).filterMap (·.map Expr.erase) := by
  cases stmts with
  | nil => rfl
  | cons s rest =>
    rw [Stmt.eraseAll, Source.Stmt.returnedOf, Stmt.returnedOf, List.filterMap_append,
      Stmt.returned_erase s, Stmt.returnedOf_eraseAll rest]

end

/-! ## What the code hands back -/

end Typed

/-- The instruction that puts on the stack what a bare return hands back. -/
def BareReturn.instr : BareReturn → Instr
  | .zero => .const 0
  | .self => .localGet "self"

theorem BareReturn.code_eq (bare : BareReturn) : bare.code = [bare.instr, .ret] := by
  cases bare <;> rfl

namespace Typed

/-- In a constructor the literal `None` is as good as nothing behind a return. -/
def IsBare (bare : BareReturn) : Option Expr → Prop
  | none => True
  | some e => bare = .self ∧ ∃ ty, e = .literal ty .none

/-- How what stands behind a return shows in what stands right before the return of its code: the
object or zero, if the return counts as bare, and otherwise the end of the code of the value. -/
inductive HandsBack (scope : Scope) (bare : BareReturn) : Option Expr → Option Instr → Prop
  | bare {value : Option Expr} (counts : IsBare bare value) :
    HandsBack scope bare value (some bare.instr)
  | value {e : Expr} {code : Code} {last : Instr} (valued : ¬IsBare bare (some e))
    (lowered : e.lower scope = .ok (code ++ [last])) : HandsBack scope bare (some e) (some last)

section Statements

variable {scope : Scope} {bare : BareReturn}

theorem handsBack_bare (value : Option Expr) (counts : IsBare bare value) (before : Option Instr) :
    List.Forall₂ (HandsBack scope bare) [value] (Code.exitsFrom before bare.code) := by
  rw [bare.code_eq]
  cases bare <;> exact .cons (.bare counts) .nil

theorem ne_ret_of_tame {i : Instr} (tame : i.Tame) : i ≠ .ret := by
  rintro rfl
  exact tame

theorem Expr.Checked.no_ret (ready : scope.Ready) {e : Expr} (h : e.Checked scope) {code : Code}
    (lowered : e.lower scope = .ok code) : Code.All (· ≠ .ret) code :=
  (h.tame ready lowered).imp fun _ => ne_ret_of_tame

theorem LValue.Writable.no_ret (ready : scope.Ready) {target : LValue} (h : target.Writable scope)
    {value : Expr} (checked : value.Checked scope) {code : Code}
    (lowered : target.lowerWrite scope value = .ok code) : Code.All (· ≠ .ret) code := by
  obtain ⟨front, last, rfl, tame, puts⟩ := h.puts ready checked lowered
  have ends : Code.All (· ≠ .ret) [last] := by
    cases puts <;> exact .single (by simp) (by simp)
  exact (tame.imp fun _ => ne_ret_of_tame).append ends

/-- The code of a value ends with some instruction, since it leaves a word. -/
theorem handsBack_value (ready : scope.Ready) {e : Expr} (h : e.Checked scope) {code : Code}
    (lowered : e.lower scope = .ok code) (valued : ¬IsBare bare (some e)) (before : Option Instr) :
    List.Forall₂ (HandsBack scope bare) [some e] (Code.exitsFrom before (code ++ [.ret])) := by
  rw [Code.exitsFrom_append, Code.exitsFrom_eq_nil before code (h.no_ret ready lowered)]
  rcases List.eq_nil_or_concat' code with rfl | ⟨front, last, rfl⟩
  · cases h.lifts ready lowered false 0 false
  · rw [List.getLast?_concat]
    exact .cons (.value valued lowered) .nil

mutual

theorem Stmt.Checked.handsBack (ready : scope.Ready) {s : Stmt} (h : s.Checked scope) {code : Code}
    (lowered : s.lower scope bare = .ok code) (before : Option Instr) :
    List.Forall₂ (HandsBack scope bare) s.returned (Code.exitsFrom before code) := by
  cases h with
  | assign target checked _ =>
    rw [Stmt.lower] at lowered
    rw [Code.exitsFrom_eq_nil before code (target.no_ret ready checked lowered)]
    exact .nil
  | expr checked =>
    obtain ⟨c, hc, rfl⟩ := Stmt.lower_expr.1 lowered
    have keep : Code.All (· ≠ .ret) [.localSet scratch] := .single (by simp) nofun
    rw [Code.exitsFrom_eq_nil before _ ((checked.no_ret ready hc).append keep)]
    exact .nil
  | bareRet inside =>
    rw [Stmt.lower, lowerReturn_none inside] at lowered
    subst lowered
    exact handsBack_bare none trivial before
  | ret inside checked _ =>
    rw [Stmt.lower, lowerReturn_some inside] at lowered
    rcases lowered with ⟨absent, rfl⟩ | ⟨valued, c, hc, rfl⟩
    · exact handsBack_bare (some _) absent before
    · exact handsBack_value ready checked hc valued before
  | branch checked =>
    rw [Stmt.lower] at lowered
    exact Arm.Checked.handsBack ready checked lowered before
  | pass =>
    cases lowered
    exact .nil

theorem Arm.Checked.handsBack (ready : scope.Ready) {arm : Arm} (h : arm.Checked scope) {code : Code}
    (lowered : arm.lower scope bare = .ok code) (before : Option Instr) :
    List.Forall₂ (HandsBack scope bare) arm.returned (Code.exitsFrom before code) := by
  cases h with
  | @mk ty condition body alternative test other block merged =>
    rw [Arm.returned]
    cases condition with
    | none =>
      obtain ⟨last, -⟩ := armTy?_else merged
      cases Option.map_eq_none_iff.1 last
      rw [Arm.alternativeReturned, List.append_nil]
      exact Stmt.handsBack_lowerAll ready block (Arm.lower_else.1 lowered) before
    | some e =>
      obtain ⟨yes, hyes, no, hno, c, hc, rfl⟩ := Arm.lower_if.1 lowered
      rw [Code.exitsFrom_append, Code.exitsFrom_eq_nil before c ((test e rfl).1.no_ret ready hc),
        List.nil_append, Code.exitsFrom, Code.exitsFrom, List.append_nil, Instr.exits]
      have inYes := Stmt.handsBack_lowerAll ready block hyes none
      have inNo := Arm.handsBack_lowerAlternative ready other hno
      exact List.rel_append inYes inNo

theorem Arm.handsBack_lowerAlternative (ready : scope.Ready) {alternative : Option Arm}
    (h : ∀ arm ∈ alternative, arm.Checked scope) {no : Option Code}
    (lowered : Arm.lowerAlternative scope bare alternative = .ok no) :
    List.Forall₂ (HandsBack scope bare) (Arm.alternativeReturned alternative)
      (Code.alternativeExits no) := by
  cases alternative with
  | none =>
    cases lowered
    exact .nil
  | some arm =>
    obtain ⟨c, hc, rfl⟩ := Arm.lowerAlternative_some.1 lowered
    exact Arm.Checked.handsBack ready (h arm rfl) hc none

theorem Stmt.handsBack_lowerAll (ready : scope.Ready) {stmts : List Stmt}
    (h : ∀ s ∈ stmts, s.Checked scope) {code : Code}
    (lowered : Stmt.lowerAll scope bare stmts = .ok code) (before : Option Instr) :
    List.Forall₂ (HandsBack scope bare) (Stmt.returnedOf stmts) (Code.exitsFrom before code) := by
  cases stmts with
  | nil =>
    cases lowered
    exact .nil
  | cons s rest =>
    obtain ⟨c, hc, cs, hcs, rfl⟩ := Stmt.lowerAll_cons.1 lowered
    obtain ⟨first, others⟩ := List.forall_mem_cons.1 h
    rw [Code.exitsFrom_append]
    exact List.rel_append (Stmt.Checked.handsBack ready first hc before)
      (Stmt.handsBack_lowerAll ready others hcs _)

end

end Statements

/-! ## Methods -/

theorem no_ret_initLocals (definitions : List VarDef) :
    Code.All (· ≠ .ret) (initLocals definitions) := by
  induction definitions with
  | nil => exact .nil
  | cons v rest ih =>
    have const : Code.All (· ≠ .ret) [.const v.value.word] := .single (by simp) nofun
    have set : Code.All (· ≠ .ret) [.localSet v.name] := .single (by simp) nofun
    exact (const.append set).append ih

/-- The end of a method is one more bare return. -/
theorem Method.handsBack_func {scope inner : Scope} (ready : scope.Ready) {cls : String}
    {m : Method} (checked : m.Checked (scope.enterClass cls) inner) {code : Code}
    (lowered : Stmt.lowerAll inner m.bare m.statements = .ok code) :
    List.Forall₂ (HandsBack inner m.bare) (Stmt.returnedOf m.statements ++ [none])
      (m.func cls code).body.exits := by
  have body := Stmt.handsBack_lowerAll (checked.ready (ready.enterClass cls)) checked.statements
    lowered ((initLocals m.definitions).getLast?.or none)
  show List.Forall₂ _ _ (Code.exitsFrom none (initLocals m.definitions ++ code ++ m.bare.code))
  rw [Code.exitsFrom_append, Code.exitsFrom_append,
    Code.exitsFrom_eq_nil none _ (no_ret_initLocals m.definitions), List.nil_append]
  exact List.rel_append body (handsBack_bare none trivial _)

/-- Bare returns all have the same exit. -/
theorem exits_of_bare {scope : Scope} {bare : BareReturn} {values : List (Option Expr)}
    {exits : List (Option Instr)} (h : List.Forall₂ (HandsBack scope bare) values exits)
    (counts : ∀ value ∈ values, IsBare bare value) :
    exits = List.replicate values.length (some bare.instr) := by
  induction h with
  | nil => rfl
  | cons first _ ih =>
    obtain ⟨here, others⟩ := List.forall_mem_cons.1 counts
    rw [ih others]
    cases first with
    | bare => rfl
    | value valued => exact absurd here valued

/-- The checker has passed a constructor only if all its returns count as bare. -/
theorem Method.Quiet.isBare {m : Method} (quiet : m.Quiet) (constructor : m.isConstructor = true) :
    ∀ value ∈ Stmt.returnedOf m.statements, IsBare .self value := by
  intro value mem
  cases value with
  | none => trivial
  | some e =>
    refine ⟨rfl, Expr.eq_of_erase_absent (quiet constructor _ ?_)⟩
    rw [Stmt.returnedOf_eraseAll]
    exact List.mem_filterMap.2 ⟨some e, mem, rfl⟩

end Typed

namespace Source

/-- Right before every return in the function of a constructor stands the instruction that gets
`self`; there is one for each return of the constructor and one at the end.  In the function of any
other method zero stands before each return that comes from one without a value, and before the one
at the end. -/
theorem Program.exits_hand_back {p : Program} {tp : Typed.Program} {scope : Scope}
    (accepted : p.check = .ok (tp, scope)) :
    ∃ laid m, scope.withLayouts tp = .ok laid ∧ p.toModule = .ok m ∧
      ∀ c ∈ tp.classes, ∀ method ∈ c.methods, ∃ f ∈ m.functions, ∃ inner,
        (∀ g, (method.lower (laid.enterClass c.name) c.name).run g = .ok f .zero) ∧
        (laid.enterClass c.name).enterMethod method.ret method.params
          (method.definitions.map fun v => ⟨v.name, v.ty⟩) = .ok inner ∧
        (method.isConstructor = true →
          [.localGet "self", .ret] <:+ f.body ∧
          f.body.exits = List.replicate ((Typed.Stmt.returnedOf method.statements).length + 1)
            (some (.localGet "self"))) ∧
        (method.isConstructor = false →
          [.const 0, .ret] <:+ f.body ∧
          List.Forall₂ (Typed.HandsBack inner .zero)
            (Typed.Stmt.returnedOf method.statements ++ [none]) f.body.exits) := by
  obtain ⟨laid, m, pass, compiled, checked, lays, lowers⟩ := exists_lowered accepted
  refine ⟨laid, m, pass, compiled, fun c mem method hm => ?_⟩
  obtain ⟨inner, code, body, lowered, hf, run⟩ := lowers.exists_function checked mem hm
  have ends : method.bare.code <:+ (method.func c.name code).body := List.suffix_append _ _
  have exits := Typed.Method.handsBack_func (checked.ready lays) body lowered
  refine ⟨_, hf, inner, run, body.enters, fun constructor => ?_, fun ordinary => ?_⟩
  · have returned := (quiet_of_check accepted c mem method hm).isBare constructor
    rw [Typed.Method.bare_of_constructor constructor] at ends exits
    refine ⟨ends, ?_⟩
    rw [Typed.exits_of_bare exits fun value within => ?_, List.length_append]
    · rfl
    · rcases List.mem_append.1 within with earlier | last
      · exact returned value earlier
      · cases List.mem_singleton.1 last
        trivial
  · rw [Typed.Method.bare_of_ordinary ordinary] at ends exits
    exact ⟨ends, exits⟩

/-- A constructor that is left in three ways, and a method that is left with a value and without. -/
def Program.leaving : Program where
  globals := []
  classes := [
    { name := "C"
      fields := [⟨"n", .int, .int 0⟩]
      methods := [
        { name := constructorName
          params := [⟨"self", .object "C"⟩]
          ret := .none
          definitions := []
          statements := [
            .ifElse (.binary .lt (.field (.id "self") "n") (.int 0)) [.ret none]
              (.elif (.binary .eq (.field (.id "self") "n") (.int 0)) [.give .absent] none),
            .assign (.field (.var "self") "n") (.int 1)] },
        { name := "m"
          params := [⟨"self", .object "C"⟩]
          ret := .int
          definitions := []
          statements := [
            .ifThen (.binary .lt (.field (.id "self") "n") (.int 0)) [.ret none],
            .give (.field (.id "self") "n")] }] }]
  body := []

theorem Program.exits_hand_back_leaving :
    ∃ tp scope m, leaving.check = .ok (tp, scope) ∧ leaving.toModule = .ok m ∧
      (∃ f ∈ m.functions, f.name = some (methodSymbol "C" constructorName) ∧
        f.body.exits =
          [some (.localGet "self"), some (.localGet "self"), some (.localGet "self")]) ∧
      ∃ f ∈ m.functions, f.name = some (methodSymbol "C" "m") ∧
        f.body.exits = [some (.const 0), some .load, some (.const 0)] := by
  obtain ⟨⟨tp, scope⟩, accepted⟩ : ∃ r, leaving.check = .ok r := ⟨_, rfl⟩
  obtain ⟨laid, m, pass, compiled, methods⟩ := exits_hand_back accepted
  refine ⟨tp, scope, m, accepted, compiled, ?_, ?_⟩
  · cases accepted
    cases pass
    obtain ⟨f, hf, inner, run, -, constructor, -⟩ := methods _ (.head _) _ (.head _)
    cases run .zero
    exact ⟨_, hf, rfl, (constructor rfl).2⟩
  · cases accepted
    cases pass
    obtain ⟨f, hf, inner, run, -, -, ordinary⟩ := methods _ (.head _) _ (.tail _ (.head _))
    cases run .zero
    refine ⟨_, hf, rfl, ?_⟩
    rfl

end Source
end ClassLang
