/-
The instructions that a body is made of, those in the arms of branches with them.

An expression is worked out on the stack: its code sets nothing but the scratch local, and does not
return.  An assignment is such code with one instruction behind it that puts the value where it
belongs.
-/
import ClassLang.Proofs.Lowering.Total

namespace ClassLang

/-! ## Code with its branches unfolded -/

mutual

def Instr.flat : Instr → List Instr
  | .branch yes no => .branch yes no :: (Code.flat yes ++ Code.alternativeFlat no)
  | i => [i]
termination_by structural i => i

/-- All instructions of the code, at every depth, in the order of the text. -/
def Code.flat : List Instr → List Instr
  | [] => []
  | i :: rest => i.flat ++ Code.flat rest
termination_by structural code => code

def Code.alternativeFlat : Option (List Instr) → List Instr
  | none => []
  | some code => Code.flat code
termination_by structural no => no

end

namespace Code

@[simp] theorem flat_append (first second : Code) :
    flat (first ++ second) = flat first ++ flat second := by
  induction first with
  | nil => rfl
  | cons i rest ih => rw [List.cons_append, flat, flat, ih, List.append_assoc]

/-- What holds of every instruction, whatever its depth. -/
def All (P : Instr → Prop) (code : Code) : Prop := ∀ i ∈ flat code, P i

namespace All

variable {P Q : Instr → Prop} {first second : Code}

theorem nil : All P [] := List.forall_mem_nil P

theorem append (h : All P first) (h' : All P second) : All P (first ++ second) := by
  intro i mem
  rw [flat_append, List.mem_append] at mem
  exact mem.elim (h i) (h' i)

theorem single {i : Instr} (h : P i) (flat : ∀ yes no, i ≠ .branch yes no) : All P [i] := by
  intro j mem
  cases i with
  | branch yes no => exact absurd rfl (flat yes no)
  | _ => exact List.mem_singleton.1 mem ▸ h

theorem branch {yes : Code} {no : Option Code} (h : P (.branch yes no)) (hyes : All P yes)
    (hno : ∀ code ∈ no, All P code) : All P [.branch yes no] := by
  intro i mem
  rw [flat, Instr.flat, flat, List.append_nil, List.mem_cons, List.mem_append] at mem
  rcases mem with rfl | inYes | inNo
  · exact h
  · exact hyes i inYes
  · cases no with
    | none => cases inNo
    | some code => exact hno code rfl i inNo

theorem imp (h : All P first) (implies : ∀ i, P i → Q i) : All Q first :=
  fun i mem => implies i (h i mem)

end All

end Code

/-! ## Code of expressions -/

/-- Instructions that neither return nor set anything but the scratch local. -/
def Instr.Tame : Instr → Prop
  | .ret | .globalSet _ => False
  | .localSet name => name = scratch
  | _ => True

theorem tame_guardAbsent : Code.All Instr.Tame guardAbsent := by
  have trap : Code.All Instr.Tame [.call Host.trapName 0 false] := .single trivial nofun
  have look : Code.All Instr.Tame [.branch [.call Host.trapName 0 false] none] :=
    .branch trivial trap nofun
  have keep : Code.All Instr.Tame [.localSet scratch] := .single rfl nofun
  have get : Code.All Instr.Tame [.localGet scratch] := .single trivial nofun
  have zero : Code.All Instr.Tame [.const 0] := .single trivial nofun
  have compare : Code.All Instr.Tame [.eq] := .single trivial nofun
  exact keep.append (get.append (zero.append (get.append (compare.append look))))

theorem UnOp.tame_code (op : UnOp) : Code.All Instr.Tame op.code := by
  cases op with
  | plus => exact .nil
  | not =>
    have one : Code.All Instr.Tame [.const 1] := .single trivial nofun
    exact one.append (.single trivial nofun)
  | neg =>
    have minusOne : Code.All Instr.Tame [.const (-1)] := .single trivial nofun
    exact minusOne.append (.single trivial nofun)

theorem BinOp.tame_instr (op : BinOp) : Code.All Instr.Tame [op.instr] := by
  cases op <;> exact .single trivial nofun

namespace Scope

variable {scope : Scope} {name : String}

theorem tame_readVar {read : Instr} (h : scope.readVar name = .ok read) :
    Code.All Instr.Tame [read] := by
  unfold readVar at h
  rw [bind_eq_ok] at h
  obtain ⟨isGlobal, -, h⟩ := h
  cases isGlobal <;> cases h <;> exact .single trivial nofun

theorem Ready.tame_fieldAddress (ready : scope.Ready) {cls : String} {info : ClassInfo} {ty : Ty}
    (found : scope.classes.get? cls = some info) (declared : info.fields.get? name = some ty)
    {address : Code} (h : scope.fieldAddress (.object cls) name = .ok address) :
    Code.All Instr.Tame address := by
  obtain ⟨offset, known⟩ := ready.fieldAddress_ok found declared
  cases known.symm.trans h
  have const : Code.All Instr.Tame [.const offset.toInt32] := .single trivial nofun
  exact tame_guardAbsent.append (const.append (.single trivial nofun))

end Scope

namespace Typed

variable {scope : Scope} {code : Code}

theorem Expr.tame_lowerAll {es : List Expr}
    (h : ∀ e ∈ es, ∀ {c}, e.lower scope = .ok c → Code.All Instr.Tame c)
    (lowered : Expr.lowerAll scope es = .ok code) : Code.All Instr.Tame code := by
  induction es generalizing code with
  | nil =>
    cases lowered
    exact .nil
  | cons e rest ih =>
    simp only [Expr.lowerAll, bind_eq_ok, pure_eq_ok] at lowered
    obtain ⟨c, hc, cs, hcs, rfl⟩ := lowered
    obtain ⟨first, others⟩ := List.forall_mem_cons.1 h
    exact (first hc).append (ih others hcs)

theorem Expr.Checked.tame (ready : scope.Ready) {e : Expr} (h : e.Checked scope)
    (lowered : e.lower scope = .ok code) : Code.All Instr.Tame code := by
  have typed := h.ty_ne_any ready.concrete
  induction h generalizing code with
  | literal value =>
    cases (Expr.lower_literal typed).1 lowered
    exact .single trivial nofun
  | id =>
    obtain ⟨read, hread, rfl⟩ := (Expr.lower_id typed).1 lowered
    exact Scope.tame_readVar hread
  | @unary op arg checked _ ih =>
    obtain ⟨c, hc, rfl⟩ := (Expr.lower_unary typed).1 lowered
    exact (ih hc (checked.ty_ne_any ready.concrete)).append op.tame_code
  | @binary op lhs rhs ty left right _ ihl ihr =>
    obtain ⟨l, hl, r, hr, rfl⟩ := (Expr.lower_binary typed).1 lowered
    have operands := (ihl hl (left.ty_ne_any ready.concrete)).append
      (ihr hr (right.ty_ne_any ready.concrete))
    exact operands.append op.tame_instr
  | paren checked ih =>
    exact ih ((Expr.lower_paren typed).1 lowered) (checked.ty_ne_any ready.concrete)
  | call found checked passed ih =>
    obtain ⟨c, hc, call, hcall, rfl⟩ := (Expr.lower_call typed).1 lowered
    rw [callBuiltin_ok (ready.concrete.functions ▸ found) passed] at hcall
    cases hcall
    have args := Expr.tame_lowerAll
      (fun e mem _ he => ih e mem he ((checked e mem).ty_ne_any ready.concrete)) hc
    exact args.append (.single trivial nofun)
  | construct =>
    cases (Expr.lower_construct typed).1 lowered
    exact .single trivial nofun
  | methodCall receiver object _ _ _ checked _ ihr ih =>
    obtain ⟨o, ho, c, hc, rfl⟩ := (Expr.lower_methodCall typed object).1 lowered
    have args := Expr.tame_lowerAll
      (fun e mem _ he => ih e mem he ((checked e mem).ty_ne_any ready.concrete)) hc
    have obj := (ihr ho (receiver.ty_ne_any ready.concrete)).append tame_guardAbsent
    exact (obj.append args).append (.single trivial nofun)
  | field receiver object found field ih =>
    obtain ⟨o, ho, address, haddress, rfl⟩ := (Expr.lower_field typed).1 lowered
    have obj := ih ho (receiver.ty_ne_any ready.concrete)
    have slot := ready.tame_fieldAddress found field (object ▸ haddress)
    exact (obj.append slot).append (.single trivial nofun)

/-! ## Code of assignments -/

theorem LValue.Readable.tame (ready : scope.Ready) {target : LValue} (h : target.Readable scope)
    (lowered : target.lowerRead scope = .ok code) : Code.All Instr.Tame code := by
  induction h generalizing code with
  | var =>
    obtain ⟨read, hread, rfl⟩ := LValue.lowerRead_var.1 lowered
    exact Scope.tame_readVar hread
  | field _ object found field ih =>
    obtain ⟨o, ho, address, haddress, rfl⟩ := LValue.lowerRead_field.1 lowered
    have slot := ready.tame_fieldAddress found field (object ▸ haddress)
    exact ((ih ho).append slot).append (.single trivial nofun)

/-- How an assignment in this scope ends: it stores to a field, or sets a variable that the innermost
scope has bound, which is a local of a method and otherwise a variable of the program. -/
inductive Puts (scope : Scope) : Instr → Prop
  | store : Puts scope .store
  | localSet {name : String} (inside : scope.inMethod = true) : Puts scope (.localSet name)
  | globalSet {name : String} {binding : Binding} (outermost : scope.inMethod = false)
    (found : scope.vars.get? name = some binding) : Puts scope (.globalSet name)

theorem LValue.Writable.puts (ready : scope.Ready) {target : LValue} (h : target.Writable scope)
    {value : Expr} (checked : value.Checked scope)
    (lowered : target.lowerWrite scope value = .ok code) :
    ∃ front last, front ++ [last] = code ∧ Code.All Instr.Tame front ∧ Puts scope last := by
  cases h with
  | @var name binding found assignable =>
    obtain ⟨v, hv, write, hwrite, rfl⟩ := LValue.lowerWrite_var.1 lowered
    refine ⟨v, write, rfl, checked.tame ready hv, ?_⟩
    rw [Scope.writeVar_of_found found, assignable, Bool.and_true] at hwrite
    cases place : scope.inMethod with
    | true =>
      rw [place] at hwrite
      cases hwrite
      exact .localSet place
    | false =>
      rw [place] at hwrite
      cases hwrite
      exact .globalSet place found
  | field receiver object found field =>
    obtain ⟨o, ho, address, haddress, v, hv, rfl⟩ := LValue.lowerWrite_field.1 lowered
    have slot := ready.tame_fieldAddress found field (object ▸ haddress)
    have front := ((receiver.tame ready ho).append slot).append (checked.tame ready hv)
    exact ⟨_, .store, rfl, front, .store⟩

end Typed
end ClassLang
