/-
The names in force at one place of a program.

A scope is a value: entering a class or a method gives a new one, so sibling methods never see each
other's names.
-/
import ClassLang.Error
import ClassLang.Layout
import ClassLang.Table
import ClassLang.Literal

namespace ClassLang

structure Binding where
  ty : Ty
  /-- Whether the innermost scope bound the name.  Inside a method this tells its own parameters and
  locals from the program's variables, which it may only read. -/
  assignable : Bool
deriving Repr, DecidableEq

structure ClassInfo where
  fields : Table Ty
  methods : Table Signature
  layout : Option Layout
deriving DecidableEq

structure Scope where
  vars : Table Binding
  classes : Table ClassInfo
  functions : Table Signature
  /-- What the enclosing method is declared to return. -/
  returns : Ty
  /-- The class whose body this is; absent at the outermost level. -/
  owner : Option String
deriving DecidableEq

namespace Scope

def empty : Scope :=
  { vars := .empty, classes := .empty, functions := .empty, returns := .none, owner := none }

def inMethod (scope : Scope) : Bool := scope.owner.isSome

/-- Inside a class everything bound so far can only be read. -/
def enterClass (scope : Scope) (cls : String) : Scope :=
  { scope with
    vars := scope.vars.map fun binding => { binding with assignable := false }
    returns := .none
    owner := some cls }

/-- Binds a name of the innermost scope.  Hiding a name from outside is allowed, binding a name
twice is not. -/
def bind (what : String) (scope : Scope) (p : Param) : Except Error Scope :=
  if (scope.vars.get? p.name).any (·.assignable) then
    .error (.duplicateDefinition what p.name none)
  else
    .ok { scope with vars := scope.vars.insert p.name { ty := p.ty, assignable := true } }

def enterMethod (scope : Scope) (ret : Ty) (params locals : List Param) : Except Error Scope := do
  let scope ← params.foldlM (bind "parameter") { scope with returns := ret }
  locals.foldlM (bind "variable") scope

/-- Whether a name stands for storage of the whole program.  At the outermost level every name
does. -/
def isGlobal (scope : Scope) (name : String) : Except Error Bool :=
  if scope.inMethod then
    match scope.vars.get? name with
    | some binding => .ok !binding.assignable
    | none => .error (.internal (.unboundVariable name))
  else .ok true

def var (scope : Scope) (name : String) : Except Error Binding :=
  match scope.vars.get? name with
  | some binding => .ok binding
  | none => .error (.undefinedVariable name)

def classInfo (scope : Scope) (cls : String) : Except Error ClassInfo :=
  match scope.classes.get? cls with
  | some info => .ok info
  | none => .error (.undefinedClass cls)

end Scope

end ClassLang
