/-
Functions for classes and methods, and the module of a whole program.

What a bare return hands back is the state of a generator.  It is set on the way into each method,
and a method that cannot be lowered leaves it as it was set.
-/
import ClassLang.Lowering.Stmt
import ClassLang.Module
import ClassLang.Scope.Layouts

namespace ClassLang

abbrev Generator := EStateM Error BareReturn

namespace Typed

/-- Stores the initial value of each field into the object that starts at the first free address. -/
def initFields (cls : String) (layout : Layout) : List VarDef → Except Error Code
  | [] => .ok []
  | field :: rest => do
    let some offset := layout.offset? field.name
      | throw (.internal (.missingField field.name cls))
    let code ← initFields cls layout rest
    return [.globalGet heap, .const offset.toInt32, .add, .const field.value.word, .store] ++ code

/-- Makes an object: fills the slots at the first free address, moves that address past them, and
hands back the old one.  A class with a constructor has it run on the new object. -/
def Class.lowerConstruct (scope : Scope) (c : Class) : Except Error Func := do
  let some info := scope.classes.get? c.name | throw (.internal (.missingClass c.name))
  let some layout := info.layout | throw (.internal (.missingLayout c.name))
  let fields ← initFields c.name layout c.fields
  let runs := info.methods.contains Source.constructorName
  let size : Code :=
    [.globalGet heap, .const layout.size.toInt32, .add, .globalSet heap]
  let run : Code :=
    [.call (methodSymbol c.name Source.constructorName) 1 true, .localSet scratch]
  return { Func.blank with
    name := some (constructorSymbol c.name)
    result := true
    body := fields ++ [.globalGet heap] ++ (if runs then [.globalGet heap] else []) ++ size ++
      (if runs then run else []) ++ [.ret] }

/-- Sets the locals to their initial values. -/
def initLocals (definitions : List VarDef) : Code :=
  definitions.flatMap fun v => [.const v.value.word, .localSet v.name]

/-- Control that reaches the end of a method meets a bare return. -/
def Method.lower (scope : Scope) (cls : String) (m : Method) : Generator Func := do
  let inner ← MonadExcept.ofExcept <|
    scope.enterMethod m.ret m.params (m.definitions.map fun v => ⟨v.name, v.ty⟩)
  let bare : BareReturn := if m.isConstructor then .self else .zero
  set bare
  let code ← MonadExcept.ofExcept (Stmt.lowerAll inner bare m.statements)
  set BareReturn.zero
  return { Func.blank with
    name := some (methodSymbol cls m.name)
    params := m.params.map (·.name)
    result := true
    locals := m.definitions.map (·.name)
    body := initLocals m.definitions ++ code ++ bare.code }

def Class.lower (scope : Scope) (c : Class) : Generator (List Func) := do
  let inner := scope.enterClass c.name
  let construct ← MonadExcept.ofExcept (c.lowerConstruct inner)
  let methods ← c.methods.mapM (·.lower inner c.name)
  return construct :: methods

/-- Whether the last of these statements is a bare expression, whose value is then handed back. -/
def endsInExpr (stmts : List Stmt) : Bool :=
  match stmts.getLast? with
  | some (.expr _ _) => true
  | _ => false

def Program.lowerEntry (scope : Scope) (p : Program) : Generator Func := do
  let code ← MonadExcept.ofExcept (Stmt.lowerAll scope (← get) p.body)
  let result := endsInExpr p.body
  return { Func.blank with
    exportName := some entryExport
    result
    body := code ++ (if result then [.localGet scratch, .ret] else []) }

/-- The module of a checked program.  The classes of `scope` must have their layouts. -/
def Program.lower (scope : Scope) (p : Program) : Generator Module := do
  let functions ← p.classes.mapM (·.lower scope)
  let entry ← p.lowerEntry scope
  return {
    globals := p.globals.map fun v => ⟨v.name, v.value.word⟩
    functions := functions.flatten
    entry }

end Typed

end ClassLang
