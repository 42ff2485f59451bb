/-
Operators, their spellings, and the types of their operands and results.
-/
import ClassLang.Ty.Assignable

namespace ClassLang

inductive UnOp where
  | not
  | neg
  | plus
deriving Repr, DecidableEq

namespace UnOp

def text : UnOp → String
  | .not => "not"
  | .neg => "-"
  | .plus => "+"

def ofText? (s : String) : Option UnOp :=
  [.not, .neg, .plus].find? (·.text = s)

/-- The type of the operand, which is that of the result too. -/
def operandTy : UnOp → Ty
  | .not => .bool
  | .neg | .plus => .int

end UnOp

inductive BinOp where
  | add
  | sub
  | mul
  | floorDiv
  | mod
  | eq
  | ne
  | lt
  | le
  | gt
  | ge
  | is
deriving Repr, DecidableEq

namespace BinOp

def text : BinOp → String
  | .add => "+"
  | .sub => "-"
  | .mul => "*"
  | .floorDiv => "//"
  | .mod => "%"
  | .eq => "=="
  | .ne => "!="
  | .lt => "<"
  | .le => "<="
  | .gt => ">"
  | .ge => ">="
  | .is => "is"

def ofText? (s : String) : Option BinOp :=
  [.add, .sub, .mul, .floorDiv, .mod, .eq, .ne, .lt, .le, .gt, .ge, .is].find? (·.text = s)

def isArithmetic : BinOp → Bool
  | .add | .sub | .mul | .floorDiv | .mod => true
  | _ => false

/-- The type of the result on operands of one and the same type. -/
def resultTy? (op : BinOp) : Ty → Option Ty
  | .int => if op = .is then none else some (if op.isArithmetic then .int else .bool)
  | .bool => if op = .eq ∨ op = .ne then some .bool else none
  | .none | .object _ => if op = .is then some .bool else none
  | .any => none

/-- Operands of two types can only be compared by identity, and only if both are references. -/
def check (op : BinOp) (lhs rhs : Ty) : Except Error Ty := do
  let result :=
    if ← lhs.same rhs then op.resultTy? lhs
    else if op = .is ∧ lhs.isReference ∧ rhs.isReference then some .bool
    else none
  match result with
  | some ty => return ty
  | none => throw (.invalidBinaryOperands op.text lhs rhs)

end BinOp

end ClassLang
