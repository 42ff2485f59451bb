/-
The expressions of a tree that keeps to the rules, at every depth: each of them does so too.
-/
import ClassLang.Proofs.Checker.Program
import ClassLang.Typed.Expressions

namespace ClassLang
namespace Typed

section

variable {scope : Scope}

theorem Expr.allOf_checked {es : List Expr} (h : ∀ e ∈ es, ∀ part ∈ e.all, part.Checked scope) :
    ∀ part ∈ Expr.allOf es, part.Checked scope := by
  induction es with
  | nil => exact List.forall_mem_nil _
  | cons e rest ih =>
    obtain ⟨first, others⟩ := List.forall_mem_cons.1 h
    exact List.forall_mem_append.2 ⟨first, ih others⟩

theorem Expr.Checked.all_checked {e : Expr} (h : e.Checked scope) :
    ∀ part ∈ e.all, part.Checked scope := by
  induction h with
  | literal value => exact List.forall_mem_singleton.2 (.literal value)
  | id found => exact List.forall_mem_singleton.2 (.id found)
  | unary checked operand ih => exact List.forall_mem_cons.2 ⟨.unary checked operand, ih⟩
  | binary left right operands ihl ihr =>
    exact List.forall_mem_cons.2
      ⟨.binary left right operands, List.forall_mem_append.2 ⟨ihl, ihr⟩⟩
  | paren checked ih => exact List.forall_mem_cons.2 ⟨.paren checked, ih⟩
  | call found checked passed ih =>
    exact List.forall_mem_cons.2 ⟨.call found checked passed, Expr.allOf_checked ih⟩
  | construct found notFunction =>
    exact List.forall_mem_singleton.2 (.construct found notFunction)
  | methodCall receiver object found ordinary method checked passed ihr ih =>
    exact List.forall_mem_cons.2
      ⟨.methodCall receiver object found ordinary method checked passed,
        List.forall_mem_append.2 ⟨ihr, Expr.allOf_checked ih⟩⟩
  | field receiver object found field ih =>
    exact List.forall_mem_cons.2 ⟨.field receiver object found field, ih⟩

theorem Expr.allOf_optional_checked {value : Option Expr} (h : ∀ e ∈ value, e.Checked scope) :
    ∀ part ∈ Expr.allOf value.toList, part.Checked scope :=
  Expr.allOf_checked fun e mem => (h e (Option.mem_toList.1 mem)).all_checked

theorem Stmt.exprsOf_checked {ss : List Stmt}
    (h : ∀ s ∈ ss, ∀ part ∈ s.exprs, part.Checked scope) :
    ∀ part ∈ Stmt.exprsOf ss, part.Checked scope := by
  induction ss with
  | nil => exact List.forall_mem_nil _
  | cons s rest ih =>
    obtain ⟨first, others⟩ := List.forall_mem_cons.1 h
    exact List.forall_mem_append.2 ⟨first, ih others⟩

mutual

theorem Stmt.Checked.exprs_checked {s : Stmt} (h : s.Checked scope) :
    ∀ part ∈ s.exprs, part.Checked scope := by
  cases h with
  | assign _ checked => exact checked.all_checked
  | expr checked => exact checked.all_checked
  | bareRet => exact List.forall_mem_nil _
  | ret _ checked => exact Expr.allOf_checked (List.forall_mem_singleton.2 checked.all_checked)
  | branch checked => exact Arm.Checked.exprs_checked checked
  | pass => exact List.forall_mem_nil _

theorem Arm.Checked.exprs_checked {arm : Arm} (h : arm.Checked scope) :
    ∀ part ∈ arm.exprs, part.Checked scope := by
  cases h with
  | @mk ty condition body alternative test other block merged =>
    have inBody := Stmt.exprsOf_checked fun s mem => Stmt.Checked.exprs_checked (block s mem)
    refine List.forall_mem_append.2 ⟨Expr.allOf_optional_checked fun e mem => (test e mem).1,
      List.forall_mem_append.2 ⟨inBody, ?_⟩⟩
    cases alternative with
    | none => exact List.forall_mem_nil _
    | some arm => exact Arm.Checked.exprs_checked (other arm rfl)

end

end

/-- Each in the scope that it stands in. -/
theorem Program.Checked.expressions_checked {p : Program} {scope : Scope} (h : p.Checked scope) :
    ∀ e ∈ p.expressions, ∃ inner, e.Checked inner := by
  refine List.forall_mem_append.2 ⟨fun e mem => ⟨scope, ?_⟩, fun e mem => ?_⟩
  · exact Stmt.exprsOf_checked (fun s mem => (h.body s mem).exprs_checked) e mem
  · obtain ⟨c, hc, mem⟩ := List.mem_flatMap.1 mem
    obtain ⟨m, hm, mem⟩ := List.mem_flatMap.1 mem
    obtain ⟨inner, checked⟩ := (h.bodies c hc).methods m hm
    exact ⟨inner,
      Stmt.exprsOf_checked (fun s mem => (checked.statements s mem).exprs_checked) e mem⟩

end Typed
end ClassLang
