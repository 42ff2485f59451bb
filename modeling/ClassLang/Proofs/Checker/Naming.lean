/-
What may be wrong with names.

Looking up names and members, entering methods and collecting signatures fail in ways of their own:
such a failure is never about the type of a value.
-/
import ClassLang.Proofs.Except
import ClassLang.Typing.Program

namespace ClassLang

/-- What is wrong with a name, with what it stands for, or with a signature. -/
def Error.isNaming : Error → Bool
  | .undefinedVariable _ | .notAssignableHere _ | .undefinedFunction _ | .undefinedClass _ => true
  | .unknownMethod _ _ | .unknownField _ _ | .notAnObject _ _ => true
  | .invalidDeclaredType _ | .duplicateDefinition _ _ _ => true
  | .invalidSelf _ _ | .missingSelf _ _ => true
  | .constructorArity _ _ | .constructorReturnType _ _ => true
  | .explicitConstructorCall _ | .constructorArgs _ _ | .argCountMismatch _ _ _ => true
  | _ => false

/-- The computation fails, if at all, because of a name. -/
abbrev FailsNaming {α : Type} (x : Except Error α) : Prop := FailsWith (·.isNaming = true) x

/-! ## Looking up -/

namespace Scope

variable (scope : Scope)

theorem var_failsNaming (name : String) : FailsNaming (scope.var name) := by
  unfold var
  split
  · exact .ok _
  · exact .error rfl

theorem classInfo_failsNaming (cls : String) : FailsNaming (scope.classInfo cls) := by
  unfold classInfo
  split
  · exact .ok _
  · exact .error rfl

theorem fieldTy_failsNaming (obj : Ty) (field : String) :
    FailsNaming (scope.fieldTy obj field) := by
  unfold fieldTy
  split
  · refine (scope.classInfo_failsNaming _).bind fun info => ?_
    split
    · exact .pure _
    · exact .throw rfl
  · exact .throw rfl

theorem methodSignature_failsNaming (obj : Ty) (method : String) :
    FailsNaming (scope.methodSignature obj method) := by
  unfold methodSignature
  refine .ite (.throw_bind (by rfl)) ?_
  split
  · refine (scope.classInfo_failsNaming _).bind fun info => ?_
    split
    · exact .pure _
    · exact .throw rfl
  · exact .throw rfl

theorem checkDeclared_failsNaming (ty : Ty) : FailsNaming (scope.checkDeclared ty) := by
  cases ty with
  | any => exact .error rfl
  | object cls => exact (scope.classInfo_failsNaming cls).bind fun _ => .pure _
  | _ => exact .ok _

/-! ## Entering methods -/

theorem bind_failsNaming (what : String) (p : Param) : FailsNaming (bind what scope p) :=
  FailsWith.ite (.error rfl) (.ok _)

theorem enterMethod_failsNaming (ret : Ty) (params locals : List Param) :
    FailsNaming (scope.enterMethod ret params locals) :=
  (FailsWith.foldlM (fun scope p => scope.bind_failsNaming "parameter" p) params _).bind fun _ =>
    FailsWith.foldlM (fun scope p => scope.bind_failsNaming "variable" p) locals _

end Scope

theorem Signature.checkCount_failsNaming (signature : Signature) (callee : String) (got : Nat) :
    FailsNaming (signature.checkCount callee got) :=
  (FailsWith.ok _).ite (.error rfl)

namespace Source

theorem checkConstruct_failsNaming (scope : Scope) (cls : String) (args : Nat) :
    FailsNaming (checkConstruct scope cls args) :=
  FailsWith.ite (.error rfl) (FailsWith.ite (.error rfl) (.ok _))

theorem LValue.checkReceiver_failsNaming (scope : Scope) (target : LValue) :
    FailsNaming (target.checkReceiver scope) := by
  induction target with
  | var name => exact (scope.var_failsNaming name).bind fun _ => .pure _
  | field obj name ih =>
    exact ih.bind fun _ => (scope.fieldTy_failsNaming _ name).bind fun _ => .pure _

theorem LValue.check_failsNaming (scope : Scope) (target : LValue) :
    FailsNaming (target.check scope) := by
  cases target with
  | var name =>
    exact (scope.var_failsNaming name).bind fun _ => (FailsWith.pure _).ite (.throw rfl)
  | field obj name => exact LValue.checkReceiver_failsNaming scope (.field obj name)

/-! ## Collecting signatures -/

theorem Method.checkSelf_failsNaming (cls : String) (m : Method) (first : Param) :
    FailsNaming (m.checkSelf cls first) :=
  FailsWith.ite (.ok _) (.error rfl)

theorem Method.signature_failsNaming (cls : String) (m : Method) :
    FailsNaming (m.signature cls) := by
  unfold Method.signature
  split
  · split
    · next first _ =>
      exact .ite (.throw_bind (by rfl))
        ((m.checkSelf_failsNaming cls first).bind fun _ => .pure _)
    · exact .error rfl
  · split
    · next first rest _ => exact (m.checkSelf_failsNaming cls first).bind fun _ => .pure _
    · exact .error rfl

theorem Class.signature_failsNaming (c : Class) : FailsNaming c.signature := by
  unfold Class.signature
  refine (FailsWith.foldlM (fun fields f => ?_) c.fields _).bind fun fields =>
    (FailsWith.foldlM (fun methods m => ?_) c.methods _).bind fun _ => .pure _
  · exact .ite (.throw rfl) (.pure _)
  · exact .ite (.throw_bind (by rfl))
      ((m.signature_failsNaming c.name).bind fun _ => .pure _)

theorem Program.scope_failsNaming (p : Program) : FailsNaming p.scope := by
  unfold Program.scope
  refine (FailsWith.foldlM (fun vars v => ?_) p.globals _).bind fun vars =>
    (FailsWith.foldlM (fun classes c => ?_) p.classes _).bind fun _ => .pure _
  · exact .ite (.throw rfl) (.pure _)
  · exact c.signature_failsNaming.bind fun _ => .ite (.throw_bind (by rfl)) (.pure _)

end Source
end ClassLang
