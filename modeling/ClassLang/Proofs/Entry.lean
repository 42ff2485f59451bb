/-
The value of a program.

A program that ends in a bare expression has the value of that expression, and any other has none.
Checker and generator find this out on their own: the one from the type of the last statement, the
other from its form.  They agree because no statement outside of methods has a type: returns give
statements their types, and outside of methods there are none at any depth.
-/
import ClassLang.Proofs.Machine.Result
import ClassLang.Proofs.Returns.Ends

namespace ClassLang

namespace Source

/-- The last of the outermost statements is this expression. -/
def Program.EndsIn (p : Program) (e : Expr) : Prop := ∃ front, p.body = front ++ [.expr e]

end Source

namespace Typed

/-! ## Statements within statements -/

mutual

/-- A statement and all those within it, at every depth. -/
def Stmt.flat : Stmt → List Stmt
  | .branch ty arm => .branch ty arm :: arm.flat
  | s => [s]
termination_by structural s => s

def Arm.flat : Arm → List Stmt
  | .mk _ _ body alternative => Stmt.flatAll body ++ Arm.alternativeFlat alternative
termination_by structural a => a

def Arm.alternativeFlat : Option Arm → List Stmt
  | none => []
  | some arm => arm.flat
termination_by structural a => a

def Stmt.flatAll : List Stmt → List Stmt
  | [] => []
  | s :: rest => s.flat ++ Stmt.flatAll rest
termination_by structural ss => ss

end

section

variable {scope : Scope}

theorem Stmt.flatAll_checked {ss : List Stmt}
    (h : ∀ s ∈ ss, ∀ t ∈ s.flat, t.Checked scope) : ∀ t ∈ Stmt.flatAll ss, t.Checked scope := by
  induction ss with
  | nil => exact List.forall_mem_nil _
  | cons s rest ih =>
    obtain ⟨first, others⟩ := List.forall_mem_cons.1 h
    exact List.forall_mem_append.2 ⟨first, ih others⟩

mutual

/-- What is within a statement stands in the same scope. -/
theorem Stmt.Checked.flat_checked {s : Stmt} (h : s.Checked scope) :
    ∀ t ∈ s.flat, t.Checked scope := by
  cases h with
  | assign target checked takes =>
    exact List.forall_mem_singleton.2 (.assign target checked takes)
  | expr checked => exact List.forall_mem_singleton.2 (.expr checked)
  | bareRet inside => exact List.forall_mem_singleton.2 (.bareRet inside)
  | ret inside checked takes => exact List.forall_mem_singleton.2 (.ret inside checked takes)
  | branch checked =>
    exact List.forall_mem_cons.2 ⟨.branch checked, Arm.Checked.flat_checked checked⟩
  | pass => exact List.forall_mem_singleton.2 .pass

theorem Arm.Checked.flat_checked {arm : Arm} (h : arm.Checked scope) :
    ∀ t ∈ arm.flat, t.Checked scope := by
  cases h with
  | @mk ty condition body alternative test other block merged =>
    have inBody := Stmt.flatAll_checked fun s mem => Stmt.Checked.flat_checked (block s mem)
    refine List.forall_mem_append.2 ⟨inBody, ?_⟩
    cases alternative with
    | none => exact List.forall_mem_nil _
    | some arm => exact Arm.Checked.flat_checked (other arm rfl)

end

/-! ## Outside of methods -/

mutual

theorem Stmt.Checked.ty_outside (outside : scope.inMethod = false) {s : Stmt}
    (h : s.Checked scope) : s.ty = .none := by
  cases h with
  | bareRet inside | ret inside =>
    rw [outside] at inside
    cases inside
  | branch checked => exact Arm.Checked.ty_outside outside checked
  | assign | expr | pass => rfl

theorem Arm.Checked.ty_outside (outside : scope.inMethod = false) {arm : Arm}
    (h : arm.Checked scope) : arm.ty = .none := by
  cases h with
  | mk test other block merged =>
    rcases armTy?_cases merged with absent | same
    · exact absent
    · exact same.trans (bodyTy_eq_none fun s mem => Stmt.Checked.ty_outside outside (block s mem))

end

theorem Stmt.flatAll_ty_outside (outside : scope.inMethod = false) {ss : List Stmt}
    (checked : ∀ s ∈ ss, s.Checked scope) : ∀ t ∈ Stmt.flatAll ss, t.ty = .none := fun t mem =>
  (Stmt.flatAll_checked (fun s mem => (checked s mem).flat_checked) t mem).ty_outside outside

end

end Typed

/-! ## The last statement -/

namespace Source

variable {scope : Scope} {p : Program}

theorem programTy_concat_expr (front : List Typed.Stmt) (te : Typed.Expr) :
    programTy (front ++ [.expr .none te]) = te.ty := by
  rw [programTy, List.getLast?_concat]

theorem endsInExpr_concat_expr (front : List Typed.Stmt) (ty : Ty) (te : Typed.Expr) :
    Typed.endsInExpr (front ++ [.expr ty te]) = true := by
  rw [Typed.endsInExpr, List.getLast?_concat]

/-- To the checker a last statement of another form is nothing but its type, and to the generator
nothing. -/
theorem last_of_not_expr {ts : Typed.Stmt} (other : ∀ ty te, ts ≠ .expr ty te)
    (front : List Typed.Stmt) :
    programTy (front ++ [ts]) = ts.ty ∧ Typed.endsInExpr (front ++ [ts]) = false := by
  rw [programTy, Typed.endsInExpr, List.getLast?_concat]
  cases ts with
  | expr ty te => exact absurd rfl (other ty te)
  | _ => exact ⟨rfl, rfl⟩

theorem Program.EndsIn.unique {e e' : Expr} (ends : p.EndsIn e) (ends' : p.EndsIn e') : e = e' := by
  obtain ⟨front, body⟩ := ends
  obtain ⟨front', body'⟩ := ends'
  have same : front ++ [Stmt.expr e] = front' ++ [.expr e'] := body.symm.trans body'
  exact Stmt.expr.inj (List.cons.inj (List.append_inj' same rfl).2).1

theorem Program.not_endsIn_of_concat {front : List Stmt} {s : Stmt} (body : p.body = front ++ [s])
    (other : ∀ e, s ≠ .expr e) : ¬∃ e, p.EndsIn e := by
  rintro ⟨e, front', ends⟩
  have same : front ++ [s] = front' ++ [.expr e] := body.symm.trans ends
  exact other e (List.cons.inj (List.append_inj' same rfl).2).1

/-- What the two of them make of the last statement. -/
theorem Program.check_last {tp : Typed.Program} (accepted : p.check = .ok (tp, scope)) :
    (∃ e te, p.EndsIn e ∧ e.check scope = .ok te ∧ tp.ty = te.ty ∧
      Typed.endsInExpr tp.body = true) ∨
    (¬∃ e, p.EndsIn e) ∧ tp.ty = .none ∧ Typed.endsInExpr tp.body = false := by
  obtain ⟨start, -, classes, -, body, passed, rfl⟩ := check_eq_ok.1 accepted
  have outside : scope.inMethod = false := by
    rw [Scope.inMethod, (scope_shows start).owner]
    rfl
  rcases List.eq_nil_or_concat p.body with empty | ⟨front, s, shape⟩
  · rw [empty] at passed
    cases passed
    refine Or.inr ⟨?_, rfl, rfl⟩
    rintro ⟨e, front, ends⟩
    rw [empty] at ends
    exact List.append_ne_nil_of_right_ne_nil front (List.cons_ne_nil _ _) ends.symm
  · rw [List.concat_eq_append] at shape
    rw [shape] at passed
    obtain ⟨tfront, -, ts, last, rfl⟩ := Stmt.checkAll_concat.1 passed
    by_cases bare : ∃ e, s = .expr e
    · obtain ⟨e, rfl⟩ := bare
      obtain ⟨te, checked, rfl⟩ := Stmt.check_expr.1 last
      exact Or.inl ⟨e, te, ⟨front, shape⟩, checked, programTy_concat_expr tfront te,
        endsInExpr_concat_expr tfront .none te⟩
    · have other (e : Expr) : s ≠ .expr e := fun same => bare ⟨e, same⟩
      have typed (ty : Ty) (te : Typed.Expr) : ts ≠ .expr ty te := by
        rintro rfl
        exact other te.erase (Stmt.erase_of_check last).symm
      obtain ⟨ty, result⟩ := last_of_not_expr typed tfront
      refine Or.inr ⟨not_endsIn_of_concat shape other, ty.trans ?_, result⟩
      exact (Stmt.check_checked last).ty_outside outside

/-- No statement outside of methods has a type.  A checked program has the type of the bare
expression that it ends in, and none if it does not end in one; its entry function is declared to
have a result exactly if it ends in one.  So a program with a type has a result, and then every run
of the entry function that finishes hands back a word. -/
theorem Program.entry_hands_back {tp : Typed.Program} (accepted : p.check = .ok (tp, scope)) :
    (∀ s ∈ Typed.Stmt.flatAll tp.body, s.ty = .none) ∧
    (∀ e, p.EndsIn e → ∃ te, e.check scope = .ok te ∧ tp.ty = te.ty) ∧
    ((¬∃ e, p.EndsIn e) → tp.ty = .none) ∧
    ∃ m, p.toModule = .ok m ∧ (m.entry.result = true ↔ ∃ e, p.EndsIn e) ∧
      (tp.ty ≠ .none → m.entry.result = true) ∧
      ∀ host memory value store,
        (Machine.State.start m memory).Stops m host (.finished value store) →
          (value.isSome = true ↔ ∃ e, p.EndsIn e) := by
  obtain ⟨laid, m, -, compiled, checked, -, lowers⟩ := exists_lowered accepted
  have outside : laid.inMethod = false := by
    rw [Scope.inMethod, checked.owner]
    rfl
  have absent := Typed.Stmt.flatAll_ty_outside outside checked.body
  have declared : m.entry.result = Typed.endsInExpr tp.body := by
    obtain ⟨functions, bare, code, -, -, rfl⟩ := lowers
    rfl
  have typed (e : Expr) (ends : p.EndsIn e) : ∃ te, e.check scope = .ok te ∧ tp.ty = te.ty := by
    rcases check_last accepted with ⟨e', te, ends', passed, ty, -⟩ | ⟨none, -⟩
    · cases ends.unique ends'
      exact ⟨te, passed, ty⟩
    · exact absurd ⟨e, ends⟩ none
  have untyped (none : ¬∃ e, p.EndsIn e) : tp.ty = .none := by
    rcases check_last accepted with ⟨e, -, ends, -⟩ | ⟨-, ty, -⟩
    · exact absurd ⟨e, ends⟩ none
    · exact ty
  have result : m.entry.result = true ↔ ∃ e, p.EndsIn e := by
    rw [declared]
    rcases check_last accepted with ⟨e, -, ends, -, -, expr⟩ | ⟨none, -, other⟩
    · exact iff_of_true expr ⟨e, ends⟩
    · exact iff_of_false (Bool.eq_false_iff.1 other) none
  refine ⟨absent, typed, untyped, m, compiled, result, fun valued => ?_, ?_⟩
  · exact result.2 (by_contra fun none => valued (untyped none))
  · intro host memory value store stops
    rw [Machine.State.isSome_of_finished m host stops]
    exact result

/-- The last statement of `counter` is a call, of type `int`. -/
theorem Program.entry_hands_back_counter :
    ∃ tp scope, counter.check = .ok (tp, scope) ∧ tp.ty = .int ∧
      counter.EndsIn (.methodCall (.id "c") "add" [.int 0]) ∧
      (∀ s ∈ Typed.Stmt.flatAll tp.body, s.ty = .none) ∧
      ∃ m, counter.toModule = .ok m ∧ m.entry.result = true := by
  obtain ⟨⟨tp, scope⟩, accepted, ty⟩ : ∃ r, counter.check = .ok r ∧ r.1.ty = .int := ⟨_, rfl, rfl⟩
  obtain ⟨absent, -, -, m, compiled, -, result, -⟩ := entry_hands_back accepted
  have valued : tp.ty ≠ .none := by
    rw [ty]
    exact Ty.noConfusion
  exact ⟨tp, scope, accepted, ty, ⟨counter.body.dropLast, rfl⟩, absent, m, compiled, result valued⟩

end Source
end ClassLang
