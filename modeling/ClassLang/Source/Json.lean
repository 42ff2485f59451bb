/-
Program trees as JSON.

Reading allows keys that are not known, and lets keys be missing whose value is then empty.
-/
import ClassLang.Json
import ClassLang.Source

namespace ClassLang

namespace Ty

def toJson : Ty → Json
  | .int => .str "int"
  | .bool => .str "bool"
  | .none => .str "none"
  | .any => .str "any"
  | .object cls => .obj [("object", .str cls)]

/-- An object type is written with exactly one key. -/
def ofJson? (place : Json.Place) (j : Json) : Option Ty :=
  match j with
  | .obj [("object", .str cls)] => some (.object cls)
  | j =>
    match j.name? place with
    | some "int" => some .int
    | some "bool" => some .bool
    | some "none" => some .none
    | some "any" => some .any
    | _ => Option.none

end Ty

namespace Literal

def toJson : Literal → Json
  | .none => .obj [("tag", .str "none")]
  | .bool value => .obj [("tag", .str "bool"), ("value", .bool value)]
  | .int value => .obj [("tag", .str "int"), ("value", .int value.toInt)]

def ofJson? (place : Json.Place) (j : Json) : Option Literal := do
  let ⟨tag, _⟩ ← j.field? "tag"
  match ← tag.name? place with
  | "none" => if (j.optional? "value").isNone then some .none else Option.none
  | "bool" => do
    let ⟨value, _⟩ ← j.field? "value"
    return .bool (← value.bool?)
  | "int" => do
    let ⟨value, _⟩ ← j.field? "value"
    return .int (← value.int32?)
  | _ => Option.none

end Literal

def UnOp.ofJson? (place : Json.Place) (j : Json) : Option UnOp := (j.name? place).bind UnOp.ofText?

def BinOp.ofJson? (place : Json.Place) (j : Json) : Option BinOp :=
  (j.name? place).bind BinOp.ofText?

namespace VarDef

def toJson (v : VarDef) : Json :=
  .obj [("name", .str v.name), ("type", v.ty.toJson), ("value", v.value.toJson)]

def ofJson? (j : Json) : Option VarDef := do
  let ⟨ty, _⟩ ← j.field? "type"
  let ⟨value, _⟩ ← j.field? "value"
  return {
    name := ← j.strField? "name"
    ty := ← Ty.ofJson? .top ty
    value := ← Literal.ofJson? .top value }

end VarDef

namespace Param

def toJson (p : Param) : Json :=
  .obj [("name", .str p.name), ("type", p.ty.toJson)]

def ofJson? (j : Json) : Option Param := do
  let ⟨ty, _⟩ ← j.field? "type"
  return { name := ← j.strField? "name", ty := ← Ty.ofJson? .top ty }

end Param

namespace Source

mutual

def Expr.toJson : Expr → Json
  | .literal value => .obj [("tag", .str "literal"), ("value", value.toJson)]
  | .id name => .obj [("tag", .str "id"), ("name", .str name)]
  | .unary op arg => .obj [("tag", .str "unary"), ("op", .str op.text), ("arg", arg.toJson)]
  | .binary op lhs rhs =>
    .obj [("tag", .str "binary"), ("op", .str op.text), ("lhs", lhs.toJson), ("rhs", rhs.toJson)]
  | .paren arg => .obj [("tag", .str "paren"), ("arg", arg.toJson)]
  | .call name args =>
    .obj [("tag", .str "call"), ("name", .str name), ("args", .arr (Expr.toJsons args))]
  | .methodCall obj name args =>
    .obj [("tag", .str "method_call"), ("obj", obj.toJson), ("name", .str name),
      ("args", .arr (Expr.toJsons args))]
  | .field obj name =>
    .obj [("tag", .str "field_access"), ("obj", obj.toJson), ("name", .str name)]
termination_by structural e => e

def Expr.toJsons : List Expr → List Json
  | [] => []
  | e :: rest => e.toJson :: Expr.toJsons rest
termination_by structural es => es

end

def Expr.ofJson? (j : Json) : Option Expr := do
  match ← j.tag? with
  | "literal" => do
    let ⟨value, _⟩ ← j.field? "value"
    return .literal (← Literal.ofJson? .inNode value)
  | "id" => return .id (← j.strField? "name")
  | "unary" => do
    let ⟨op, _⟩ ← j.field? "op"
    let ⟨arg, _⟩ ← j.field? "arg"
    return .unary (← UnOp.ofJson? .inNode op) (← Expr.ofJson? arg)
  | "binary" => do
    let ⟨op, _⟩ ← j.field? "op"
    let ⟨lhs, _⟩ ← j.field? "lhs"
    let ⟨rhs, _⟩ ← j.field? "rhs"
    return .binary (← BinOp.ofJson? .inNode op) (← Expr.ofJson? lhs) (← Expr.ofJson? rhs)
  | "paren" => do
    let ⟨arg, _⟩ ← j.field? "arg"
    return .paren (← Expr.ofJson? arg)
  | "call" => do
    let args ← j.itemsOrNone? "args"
    return .call (← j.strField? "name") (← args.mapM fun ⟨arg, _⟩ => Expr.ofJson? arg)
  | "method_call" => do
    let ⟨obj, _⟩ ← j.field? "obj"
    let args ← j.itemsOrNone? "args"
    return .methodCall (← Expr.ofJson? obj) (← j.strField? "name")
      (← args.mapM fun ⟨arg, _⟩ => Expr.ofJson? arg)
  | "field_access" => do
    let ⟨obj, _⟩ ← j.field? "obj"
    return .field (← Expr.ofJson? obj) (← j.strField? "name")
  | _ => none
termination_by sizeOf j

def LValue.toJson : LValue → Json
  | .var name => .obj [("tag", .str "var"), ("name", .str name)]
  | .field obj name => .obj [("tag", .str "field"), ("obj", obj.toJson), ("name", .str name)]

def LValue.ofJson? (j : Json) : Option LValue := do
  match ← j.tag? with
  | "var" => return .var (← j.strField? "name")
  | "field" => do
    let ⟨obj, _⟩ ← j.field? "obj"
    return .field (← LValue.ofJson? obj) (← j.strField? "name")
  | _ => none
termination_by sizeOf j

def optionToJson : Option Expr → Json
  | none => .null
  | some e => e.toJson

/-- An expression that may be missing, or be `null` instead. -/
def Expr.optional? (j : Json) (name : String) : Option (Option Expr) :=
  match j.optional? name with
  | none => some none
  | some ⟨e, _⟩ => do return some (← Expr.ofJson? e)

mutual

def Stmt.toJson : Stmt → Json
  | .assign lhs value =>
    .obj [("tag", .str "assign"), ("lhs", lhs.toJson), ("value", value.toJson)]
  | .expr e => .obj [("tag", .str "expr"), ("expr", e.toJson)]
  | .ret value => .obj [("tag", .str "return"), ("value", optionToJson value)]
  | .branch arm => .obj (("tag", .str "if") :: arm.toFields)
  | .pass => .obj [("tag", .str "pass")]
termination_by structural s => s

def Arm.toFields : Arm → List (String × Json)
  | .mk condition body alternative =>
    [("condition", optionToJson condition), ("body", .arr (Stmt.toJsons body)),
     ("else", Arm.alternativeToJson alternative)]
termination_by structural a => a

def Arm.alternativeToJson : Option Arm → Json
  | none => .null
  | some arm => .obj arm.toFields
termination_by structural a => a

def Stmt.toJsons : List Stmt → List Json
  | [] => []
  | s :: rest => s.toJson :: Stmt.toJsons rest
termination_by structural ss => ss

end

mutual

def Stmt.ofJson? (j : Json) : Option Stmt := do
  match ← j.tag? with
  | "assign" => do
    let ⟨lhs, _⟩ ← j.field? "lhs"
    let ⟨value, _⟩ ← j.field? "value"
    return .assign (← LValue.ofJson? lhs) (← Expr.ofJson? value)
  | "expr" => do
    let ⟨e, _⟩ ← j.field? "expr"
    return .expr (← Expr.ofJson? e)
  | "return" => return .ret (← Expr.optional? j "value")
  | "if" => return .branch (← Arm.ofJson? j)
  | "pass" => return .pass
  | _ => none
termination_by (sizeOf j, 1)

def Arm.ofJson? (j : Json) : Option Arm := do
  let body ← j.itemsOrNone? "body"
  let condition ← Expr.optional? j "condition"
  let body ← body.mapM fun ⟨s, _⟩ => Stmt.ofJson? s
  match j.optional? "else" with
  | none => return .mk condition body none
  | some ⟨arm, _⟩ => return .mk condition body (some (← Arm.ofJson? arm))
termination_by (sizeOf j, 0)

end

/-- A return type that is not declared is `none`. -/
def retOfJson? (j : Json) : Option Ty :=
  match j.field? "ret" with
  | none => some .none
  | some ⟨ty, _⟩ => Ty.ofJson? .top ty

def Method.toJson (m : Method) : Json :=
  .obj [("name", .str m.name), ("params", .arr (m.params.map (·.toJson))), ("ret", m.ret.toJson),
    ("body", .obj [("definitions", .arr (m.definitions.map (·.toJson))),
      ("statements", .arr (Stmt.toJsons m.statements))])]

def Method.ofJson? (j : Json) : Option Method := do
  let params ← j.itemsOrNone? "params"
  let ⟨body, _⟩ ← j.field? "body"
  let definitions ← body.itemsOrNone? "definitions"
  let statements ← body.itemsOrNone? "statements"
  return {
    name := ← j.strField? "name"
    params := ← params.mapM (Param.ofJson? ·.1)
    ret := ← retOfJson? j
    definitions := ← definitions.mapM (VarDef.ofJson? ·.1)
    statements := ← statements.mapM (Stmt.ofJson? ·.1) }

def Class.toJson (c : Class) : Json :=
  .obj [("name", .str c.name), ("fields", .arr (c.fields.map (·.toJson))),
    ("methods", .arr (c.methods.map (·.toJson)))]

def Class.ofJson? (j : Json) : Option Class := do
  let fields ← j.itemsOrNone? "fields"
  let methods ← j.itemsOrNone? "methods"
  return {
    name := ← j.strField? "name"
    fields := ← fields.mapM (VarDef.ofJson? ·.1)
    methods := ← methods.mapM (Method.ofJson? ·.1) }

def Program.toJson (p : Program) : Json :=
  .obj [("variables", .arr (p.globals.map (·.toJson))),
    ("classes", .arr (p.classes.map (·.toJson))), ("body", .arr (Stmt.toJsons p.body))]

def Program.ofJson? (j : Json) : Option Program := do
  let globals ← j.itemsOrNone? "variables"
  let classes ← j.itemsOrNone? "classes"
  let body ← j.itemsOrNone? "body"
  return {
    globals := ← globals.mapM (VarDef.ofJson? ·.1)
    classes := ← classes.mapM (Class.ofJson? ·.1)
    body := ← body.mapM (Stmt.ofJson? ·.1) }

end Source

end ClassLang
