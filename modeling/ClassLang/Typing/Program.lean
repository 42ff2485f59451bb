/-
Whole programs: the scope of the outermost level, then definitions, classes and statements in it.
The first violation found is the answer.
-/
import ClassLang.Host
import ClassLang.Typing.Class

namespace ClassLang
namespace Source

/-- The scope of the outermost level.  Only names and signatures are looked at. -/
def Program.scope (p : Program) : Except Error Scope := do
  let vars ← p.globals.foldlM (fun (vars : Table Binding) v =>
    if vars.contains v.name then throw (.duplicateDefinition "variable" v.name none)
    else return vars.insert v.name { ty := v.ty, assignable := true }) .empty
  let classes ← p.classes.foldlM (fun (classes : Table ClassInfo) c => do
    let info ← c.signature
    if classes.contains c.name then throw (.duplicateDefinition "class" c.name none)
    return classes.insert c.name info) .empty
  return { Scope.empty with vars, classes, functions := Host.builtins }

/-- A program that ends in a bare expression has the type of that expression. -/
def programTy (body : List Typed.Stmt) : Ty :=
  match body.getLast? with
  | some (.expr .none e) => e.ty
  | some last => last.ty
  | none => .none

/-- The checked tree, and the scope in which its statements stand. -/
def Program.check (p : Program) : Except Error (Typed.Program × Scope) := do
  let scope ← p.scope
  let globals ← p.globals.mapM (·.check scope)
  let classes ← p.classes.mapM (·.check scope)
  let body ← Stmt.checkAll scope p.body
  return ({ ty := programTy body, globals, classes, body }, scope)

end Source
end ClassLang
