/-
Literals, and the two kinds of declaration that both program trees share: a definition with its
literal initial value, and a parameter.
-/
import ClassLang.Ty

namespace ClassLang

inductive Literal where
  | none
  | bool (value : Bool)
  | int (value : Int32)
deriving Repr, DecidableEq

namespace Literal

def ty : Literal → Ty
  | .none => .none
  | .bool _ => .bool
  | .int _ => .int

/-- The machine word that stands for the literal.  Zero is both `False` and the absent object. -/
def word : Literal → Int32
  | .none => 0
  | .bool value => if value then 1 else 0
  | .int value => value

end Literal

structure VarDef where
  name : String
  ty : Ty
  value : Literal
deriving Repr, DecidableEq

structure Param where
  name : String
  ty : Ty
deriving Repr, DecidableEq

end ClassLang
