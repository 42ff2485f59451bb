/-
The two tables of built-ins, that of the checker and that of the host, and how a call goes from the
one to the other.
-/
import ClassLang.Lowering.Expr
import ClassLang.Proofs.Checker.Concrete

namespace ClassLang
namespace Host

/-- The import that a call of a built-in ends up in. -/
def target (name : String) (args : List Ty) : String :=
  if name = printName then args.head?.elim printName printerOf else name

theorem import?_printerOf (ty : Ty) : import? (printerOf ty) = some (.plain (printerOf ty) 1) := by
  cases ty <;> rfl

/-- Built-ins other than that which prints are imported under their own names, and answer with
numbers. -/
theorem exists_target {name : String} {signature : Signature} {args : List Ty}
    (found : builtins.get? name = some signature) (passed : Passes signature.params args) :
    ∃ i, import? (target name args) = some i ∧ i.params = args.length ∧ i.returns = true ∧
      (signature.ret = .int ∨ signature.ret = .none ∧ ∃ ty, target name args = printerOf ty) := by
  have count : signature.params.length = args.length := passed.length_eq
  rcases builtins_get? found with ⟨rfl, rfl⟩ | ⟨notPrint, numbers, imported⟩
  · obtain ⟨ty, rfl⟩ := List.length_eq_one_iff.1 count.symm
    exact ⟨_, import?_printerOf ty, rfl, rfl, Or.inr ⟨rfl, ty, rfl⟩⟩
  · rw [show target name args = name from if_neg notPrint]
    exact ⟨_, imported, count, rfl, Or.inl (congrArg Signature.ret numbers)⟩

end Host

/-- A checked call of a built-in is a call of an import that takes as many words as there are
arguments and leaves one. -/
theorem callBuiltin_ok {name : String} {signature : Signature} {args : List Ty}
    (found : Host.builtins.get? name = some signature) (passed : Passes signature.params args) :
    callBuiltin name args = .ok (.call (Host.target name args) args.length true) := by
  have count : signature.params.length = args.length := passed.length_eq
  rcases Host.builtins_get? found with ⟨rfl, rfl⟩ | ⟨notPrint, -, imported⟩
  · obtain ⟨arg, rfl⟩ := List.length_eq_one_iff.1 count.symm
    simp only [callBuiltin, Host.target, if_true, pure_bind, Host.import?_printerOf]
    rfl
  · simp only [callBuiltin, Host.target, notPrint, if_false, pure_bind, imported, count]
    rfl

end ClassLang
