/-
Scopes that declare no value of type `any`, and that no expression has that type in them.
-/
import ClassLang.Host
import ClassLang.Proofs.Checker.Judgment
import ClassLang.Proofs.Checker.Method

namespace ClassLang

namespace Host

/-- Besides the printer, every built-in takes numbers and gives one, and the host has a function of
that name and shape. -/
theorem builtins_get? {name : String} {signature : Signature}
    (found : builtins.get? name = some signature) :
    name = printName ∧ signature = ⟨[.any], .none⟩ ∨
      name ≠ printName ∧ signature = ⟨List.replicate signature.params.length .int, .int⟩ ∧
        Host.import? name = some (.plain name signature.params.length) := by
  simp only [builtins, Table.ofList, List.foldl, Table.get?_insert, Table.get?_empty] at found
  split at found
  · next eq => cases found; subst eq; exact Or.inr ⟨by decide, rfl, by decide⟩
  split at found
  · next eq => cases found; subst eq; exact Or.inr ⟨by decide, rfl, by decide⟩
  split at found
  · next eq => cases found; subst eq; exact Or.inr ⟨by decide, rfl, by decide⟩
  split at found
  · next eq => cases found; subst eq; exact Or.inr ⟨by decide, rfl, by decide⟩
  split at found
  · next eq => cases found; exact Or.inl ⟨eq, rfl⟩
  · cases found

theorem builtins_ret_ne_any {name : String} {signature : Signature}
    (found : builtins.get? name = some signature) : signature.ret ≠ .any := by
  rcases builtins_get? found with ⟨-, rfl⟩ | ⟨-, eq, -⟩
  · exact nofun
  · rw [eq]
    exact nofun

end Host

theorem Literal.ty_ne_any (value : Literal) : value.ty ≠ .any := by
  cases value <;> exact Ty.noConfusion

theorem UnOp.operandTy_ne_any (op : UnOp) : op.operandTy ≠ .any := by
  cases op <;> exact Ty.noConfusion

theorem BinOp.Types.result_ne_any {op : BinOp} {lhs rhs result : Ty} (h : op.Types lhs rhs result) :
    result ≠ .any := by
  cases h <;> exact Ty.noConfusion

structure ClassInfo.Concrete (info : ClassInfo) : Prop where
  fields : ∀ field ty, info.fields.get? field = some ty → ty ≠ .any
  methods : ∀ method signature, info.methods.get? method = some signature → signature.ret ≠ .any

namespace Scope

/-- Nothing that can be named in the scope has type `any`, and the functions are the built-ins. -/
structure Concrete (scope : Scope) : Prop where
  functions : scope.functions = Host.builtins
  vars : ∀ name binding, scope.vars.get? name = some binding → binding.ty ≠ .any
  classes : ∀ cls info, scope.classes.get? cls = some info → info.Concrete

theorem Concrete.enterClass {scope : Scope} (concrete : scope.Concrete) (cls : String) :
    (scope.enterClass cls).Concrete where
  functions := concrete.functions
  vars := fun name binding found => by
    rw [Scope.enterClass, Table.get?_map, Option.map_eq_some_iff] at found
    obtain ⟨outer, found, rfl⟩ := found
    exact concrete.vars name outer found
  classes := concrete.classes

theorem Concrete.enterMethod {outer inner : Scope} (concrete : outer.Concrete) {ret : Ty}
    {own : List Param} (enters : outer.Enters inner ret own) (own_ne : ∀ p ∈ own, p.ty ≠ .any) :
    inner.Concrete where
  functions := enters.functions.trans concrete.functions
  vars := fun name binding found => by
    rw [enters.vars, overlay] at found
    split at found
    · next p hp => cases found; exact own_ne p (List.mem_of_find?_eq_some hp)
    · exact concrete.vars name binding found
  classes := enters.classes ▸ concrete.classes

end Scope

theorem Typed.Expr.Checked.ty_ne_any {scope : Scope} (concrete : scope.Concrete) {e : Typed.Expr}
    (h : e.Checked scope) : e.ty ≠ .any := by
  induction h with
  | literal value => exact value.ty_ne_any
  | id found => exact concrete.vars _ _ found
  | unary => exact UnOp.operandTy_ne_any _
  | binary _ _ operands => exact operands.result_ne_any
  | paren _ ih => exact ih
  | call found => exact Host.builtins_ret_ne_any (concrete.functions ▸ found)
  | construct => exact Ty.noConfusion
  | methodCall _ _ found _ method => exact (concrete.classes _ _ found).methods _ _ method
  | field _ _ found field => exact (concrete.classes _ _ found).fields _ _ field

end ClassLang
