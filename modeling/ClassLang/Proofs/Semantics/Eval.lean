/-
What programs mean, apart from any machine: an evaluator of checked trees.

Numbers are 32-bit and wrap.  Objects are records, told apart by when they were made.  Everything
is evaluated from left to right.  Fuel bounds the depth of calls, since nothing else can go on for
ever.
-/
import ClassLang.Proofs.Lowering.Builtins
import Mathlib.Algebra.Group.Int.Defs

namespace ClassLang

inductive Value where
  | int (n : Int32)
  | bool (b : Bool)
  | none
  /-- The object that was made after so many others. -/
  | ref (id : Nat)
deriving Repr, DecidableEq

def Literal.value : Literal → Value
  | .none => .none
  | .bool b => .bool b
  | .int n => .int n

/-- What a method of this type hands back if it returns no value. -/
def Ty.zero : Ty → Value
  | .int => .int 0
  | .bool => .bool false
  | .none | .any | .object _ => .none

namespace Value

def isReference : Value → Bool
  | .none | .ref _ => true
  | _ => false

def int? : Value → Option Int32
  | .int n => some n
  | _ => Option.none

end Value

structure Object where
  cls : String
  fields : Table Value
deriving DecidableEq

/-- A call of a function of the host. -/
structure Event where
  func : String
  args : List Value
deriving Repr, DecidableEq

structure World where
  globals : Table Value
  /-- The names that the innermost call binds. -/
  locals : Table Value
  /-- All objects ever made, oldest first. -/
  objects : List Object
  /-- All calls of the host, oldest first. -/
  events : List Event
deriving DecidableEq

/-- Why there is no result. -/
inductive Halt where
  /-- A division without a result. -/
  | fault
  /-- The member of an object that is absent. -/
  | absent
  /-- Out of fuel. -/
  | unfinished
  /-- Not a checked program. -/
  | stuck
deriving Repr, DecidableEq

abbrev Eval := EStateM Halt World

/-- How methods are called: by the class of the object, the name of the method, and the values of
its parameters, of which the object is the first. -/
abbrev Calls := String → String → List Value → Eval Value

/-! ## Operators -/

/-- The quotient rounds toward zero.  There is none by zero, and none that needs more bits. -/
def quotient (a b : Int32) : Eval Value :=
  let q := a.toInt.tdiv b.toInt
  if b = 0 ∨ q < -2 ^ 31 ∨ 2 ^ 31 ≤ q then throw .fault else pure (.int (.ofInt q))

/-- What the quotient leaves, with the sign of the dividend. -/
def remainder (a b : Int32) : Eval Value :=
  if b = 0 then throw .fault else pure (.int (.ofInt (a.toInt.tmod b.toInt)))

def UnOp.eval : UnOp → Value → Eval Value
  | .not, .bool b => pure (.bool !b)
  | .neg, .int n => pure (.int (-n))
  | .plus, .int n => pure (.int n)
  | _, _ => throw .stuck

def BinOp.eval : BinOp → Value → Value → Eval Value
  | .add, .int a, .int b => pure (.int (a + b))
  | .sub, .int a, .int b => pure (.int (a - b))
  | .mul, .int a, .int b => pure (.int (a * b))
  | .floorDiv, .int a, .int b => quotient a b
  | .mod, .int a, .int b => remainder a b
  | .eq, .int a, .int b => pure (.bool (a = b))
  | .ne, .int a, .int b => pure (.bool (a ≠ b))
  | .lt, .int a, .int b => pure (.bool (a < b))
  | .le, .int a, .int b => pure (.bool (a ≤ b))
  | .gt, .int a, .int b => pure (.bool (b < a))
  | .ge, .int a, .int b => pure (.bool (b ≤ a))
  | .eq, .bool a, .bool b => pure (.bool (a = b))
  | .ne, .bool a, .bool b => pure (.bool (a ≠ b))
  | .is, a, b => if a.isReference && b.isReference then pure (.bool (a = b)) else throw .stuck
  | _, _, _ => throw .stuck

/-! ## Storage -/

/-- The names of a call hide those of the program. -/
def readVar (name : String) : Eval Value := fun w =>
  match (w.locals.get? name).or (w.globals.get? name) with
  | some v => .ok v w
  | none => .error .stuck w

def writeVar (name : String) (v : Value) : Eval Unit := fun w =>
  if w.locals.contains name then .ok () { w with locals := w.locals.insert name v }
  else if w.globals.contains name then .ok () { w with globals := w.globals.insert name v }
  else .error .stuck w

/-- The object of which a member is wanted. -/
def deref : Value → Eval Nat
  | .ref id => pure id
  | .none => throw .absent
  | _ => throw .stuck

def readField (id : Nat) (field : String) : Eval Value := fun w =>
  match (w.objects[id]?).bind (·.fields.get? field) with
  | some v => .ok v w
  | none => .error .stuck w

def writeField (id : Nat) (field : String) (v : Value) : Eval Unit := fun w =>
  match w.objects[id]? with
  | some obj =>
    if obj.fields.contains field then
      .ok () { w with
        objects := w.objects.set id { obj with fields := obj.fields.insert field v } }
    else .error .stuck w
  | none => .error .stuck w

/-- The class that an object was made of. -/
def classOf (id : Nat) : Eval String := fun w =>
  match w.objects[id]? with
  | some obj => .ok obj.cls w
  | none => .error .stuck w

/-- Records a call of the host. -/
def record (func : String) (args : List Value) : Eval Unit := fun w =>
  .ok () { w with events := w.events ++ [⟨func, args⟩] }

namespace Typed

def Program.class? (p : Program) (cls : String) : Option Class :=
  p.classes.find? (·.name = cls)

/-- A new object with the initial values of its fields. -/
def Class.blank (c : Class) : Object where
  cls := c.name
  fields := .ofList (c.fields.map fun f => (f.name, f.value.value))

/-- What a method finds bound when it starts. -/
def Method.bindings (m : Method) (args : List Value) : Table Value :=
  .ofList ((m.params.map (·.name)).zip args ++ m.definitions.map fun v => (v.name, v.value.value))

section

variable (p : Program) (answers : String → List Int32 → Int32) (call : Calls)

/-- The host prints, or computes a number from numbers. -/
def callHost (name : String) (tys : List Ty) (args : List Value) : Eval Value := do
  record (Host.target name tys) args
  if name = Host.printName then return .none
  else
    match args.mapM Value.int? with
    | some ns => return .int (answers name ns)
    | none => throw .stuck

/-- An object is there before its constructor runs. -/
def makeObject (cls : String) : Eval Value := do
  match p.class? cls with
  | none => throw .stuck
  | some c =>
    let id := (← get).objects.length
    modify fun w => { w with objects := w.objects ++ [c.blank] }
    if c.methods.any (·.isConstructor) then
      let _ ← call cls Source.constructorName [.ref id]
    return .ref id

/-- Which method runs is up to the object. -/
def dispatch (id : Nat) (name : String) (args : List Value) : Eval Value := do
  let cls ← classOf id
  call cls name (.ref id :: args)

mutual

def Expr.eval : Expr → Eval Value
  | .literal _ value => pure value.value
  | .id _ name => readVar name
  | .unary _ op arg => do
    let a ← arg.eval
    op.eval a
  | .binary _ op lhs rhs => do
    let a ← lhs.eval
    let b ← rhs.eval
    op.eval a b
  | .paren _ arg => arg.eval
  | .call _ name args => do
    let vs ← Expr.evalAll args
    callHost answers name (args.map Expr.ty) vs
  | .construct _ cls => makeObject p call cls
  | .methodCall _ obj name args => do
    let o ← obj.eval
    let id ← deref o
    let vs ← Expr.evalAll args
    dispatch call id name vs
  | .field _ obj name => do
    let o ← obj.eval
    let id ← deref o
    readField id name
termination_by structural e => e

def Expr.evalAll : List Expr → Eval (List Value)
  | [] => pure []
  | e :: rest => do
    let v ← e.eval
    let vs ← Expr.evalAll rest
    return v :: vs
termination_by structural es => es

end

def LValue.eval : LValue → Eval Value
  | .var _ name => readVar name
  | .field _ obj name => do
    let o ← obj.eval
    let id ← deref o
    readField id name

/-- The object of a field comes before the value. -/
def LValue.assign (value : Expr) : LValue → Eval Unit
  | .var _ name => do
    let v ← value.eval p answers call
    writeVar name v
  | .field _ obj name => do
    let o ← obj.eval
    let id ← deref o
    let v ← value.eval p answers call
    writeField id name v

/-- How control leaves a statement. -/
inductive Flow where
  | next
  /-- A return without a value. -/
  | leave
  | ret (v : Value)
deriving Repr, DecidableEq

mutual

def Stmt.eval : Stmt → Eval Flow
  | .assign _ lhs value => do
    lhs.assign p answers call value
    return .next
  | .expr _ e => do
    let _ ← e.eval p answers call
    return .next
  | .ret _ none => return .leave
  | .ret _ (some e) => do
    let v ← e.eval p answers call
    return .ret v
  | .branch _ arm => arm.eval
  | .pass _ => return .next
termination_by structural s => s

def Arm.eval : Arm → Eval Flow
  | .mk _ none body _ => Stmt.evalAll body
  | .mk _ (some e) body alternative => do
    match ← e.eval p answers call with
    | .bool true => Stmt.evalAll body
    | .bool false => Arm.evalAlternative alternative
    | _ => throw .stuck
termination_by structural a => a

def Arm.evalAlternative : Option Arm → Eval Flow
  | none => return .next
  | some arm => arm.eval
termination_by structural a => a

def Stmt.evalAll : List Stmt → Eval Flow
  | [] => return .next
  | s :: rest => do
    match ← s.eval with
    | .next => Stmt.evalAll rest
    | flow => return flow
termination_by structural ss => ss

end

/-- Goes back to the bindings of the caller.  Control that reaches the end of a method meets a
return without a value. -/
def Method.handBack (m : Method) (caller : Table Value) (flow : Flow) : Eval Value := do
  modify fun w => { w with locals := caller }
  match flow with
  | .next | .leave => return m.ret.zero
  | .ret v => return v

/-- Runs the body of a method on its own bindings. -/
def Method.eval (m : Method) (args : List Value) : Eval Value := do
  let caller := (← get).locals
  modify fun w => { w with locals := m.bindings args }
  let flow ← Stmt.evalAll p answers call m.statements
  m.handBack caller flow

/-- Calls of methods whose own calls are these. -/
def Program.invoke : Calls := fun cls name args =>
  match (p.class? cls).bind fun c => c.methods.find? (·.name = name) with
  | some m => if args.length = m.params.length then m.eval p answers call args else throw .stuck
  | none => throw .stuck

end

section

variable (p : Program) (answers : String → List Int32 → Int32)

/-- Calls nested so deep. -/
def Program.calls : Nat → Calls
  | 0 => fun _ _ _ => throw .unfinished
  | fuel + 1 => p.invoke answers (Program.calls fuel)

/-- Runs statements that no return is among. -/
def Program.perform (fuel : Nat) (stmts : List Stmt) : Eval Unit := do
  match ← Stmt.evalAll p answers (p.calls answers fuel) stmts with
  | .next => return ()
  | _ => throw .stuck

/-- Runs the outermost statements.  If the last one is a bare expression its value is the result. -/
def Program.eval (fuel : Nat) : Eval (Option Value) := do
  match p.body.getLast? with
  | some (.expr _ e) =>
    p.perform answers fuel p.body.dropLast
    let v ← e.eval p answers (p.calls answers fuel)
    return some v
  | _ =>
    p.perform answers fuel p.body
    return none

def Program.world : World where
  globals := .ofList (p.globals.map fun v => (v.name, v.value.value))
  locals := .empty
  objects := []
  events := []

/-- The result and the world it is reached in, from the world at the start. -/
def Program.run (fuel : Nat) : EStateM.Result Halt World (Option Value) :=
  (p.eval answers fuel).run p.world

end

end Typed
end ClassLang
