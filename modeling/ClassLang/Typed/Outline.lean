/-
One-line outlines of checked expressions, for messages that have to show one: the form of a node,
then its parts by name between braces.
-/
import ClassLang.Text.Quoted
import ClassLang.Typed

namespace ClassLang

/-- A form with named parts. -/
def outlineOf (form : String) (parts : List (String × String)) : String :=
  form ++ " \x7b " ++ ", ".intercalate (parts.map fun part => part.1 ++ ": " ++ part.2) ++ " \x7d"

def Ty.outline : Ty → String
  | .int => "Int"
  | .bool => "Bool"
  | .none => "None"
  | .any => "Any"
  | .object cls => "Object(" ++ Text.quoted cls ++ ")"

def Literal.outline : Literal → String
  | .none => "None"
  | .bool value => "Bool(" ++ toString value ++ ")"
  | .int value => "Int(" ++ toString value ++ ")"

def UnOp.outline : UnOp → String
  | .not => "Not"
  | .neg => "Neg"
  | .plus => "Plus"

def BinOp.outline : BinOp → String
  | .add => "Add"
  | .sub => "Sub"
  | .mul => "Mul"
  | .floorDiv => "FloorDiv"
  | .mod => "Mod"
  | .eq => "Eq"
  | .ne => "Ne"
  | .lt => "Lt"
  | .le => "Le"
  | .gt => "Gt"
  | .ge => "Ge"
  | .is => "Is"

namespace Typed

/-- An expression inside another shows its type beside its outline. -/
def partOutline (ty : Ty) (outline : String) : String :=
  outlineOf "TypedExpr" [("ty", ty.outline), ("kind", outline)]

mutual

def Expr.outline : Expr → String
  | .literal _ value => outlineOf "Literal" [("value", value.outline)]
  | .id _ name => outlineOf "Id" [("name", Text.quoted name)]
  | .unary _ op arg =>
    outlineOf "Unary" [("op", op.outline), ("arg", partOutline arg.ty arg.outline)]
  | .binary _ op lhs rhs =>
    outlineOf "Binary" [("op", op.outline), ("lhs", partOutline lhs.ty lhs.outline),
      ("rhs", partOutline rhs.ty rhs.outline)]
  | .paren _ arg => outlineOf "Paren" [("arg", partOutline arg.ty arg.outline)]
  | .call _ name args =>
    outlineOf "Call"
      [("name", Text.quoted name), ("args", "[" ++ ", ".intercalate (Expr.outlines args) ++ "]")]
  | .construct _ cls => outlineOf "Construct" [("class", Text.quoted cls)]
  | .methodCall _ obj name args =>
    outlineOf "MethodCall"
      [("obj", partOutline obj.ty obj.outline), ("name", Text.quoted name),
       ("args", "[" ++ ", ".intercalate (Expr.outlines args) ++ "]")]
  | .field _ obj name =>
    outlineOf "FieldAccess"
      [("obj", partOutline obj.ty obj.outline), ("name", Text.quoted name)]
termination_by structural e => e

def Expr.outlines : List Expr → List String
  | [] => []
  | e :: rest => partOutline e.ty e.outline :: Expr.outlines rest
termination_by structural es => es

end

end Typed

end ClassLang
